import ClassScribe.Proofs.Path.Steps

/-! # Paths with plain names

A plain name is one component of a path: joined to a path it adds one step, and one name to those
that the path is walked along. The text of the path ends with it.
-/
namespace ClassScribe

/-- A name that is one component of a path. -/
structure Path.Plain (s : String) : Prop where
  ne_empty : s ≠ ""
  ne_here : s ≠ "."
  ne_up : s ≠ ".."
  no_slash : '/' ∉ s.toList

namespace Path

variable {s : String}

theorem plain_iff : Plain s ↔ s ≠ "" ∧ s ≠ "." ∧ s ≠ ".." ∧ '/' ∉ s.toList :=
  ⟨fun h => ⟨h.ne_empty, h.ne_here, h.ne_up, h.no_slash⟩, fun ⟨h1, h2, h3, h4⟩ => ⟨h1, h2, h3, h4⟩⟩

instance (s : String) : Decidable (Plain s) := decidable_of_iff' _ plain_iff

theorem Plain.relative (h : Plain s) : isAbsolute s = false := by
  by_contra habs
  rw [isAbsolute, Bool.not_eq_false, beq_iff_eq] at habs
  exact h.no_slash (List.mem_of_head? habs)

theorem Plain.kept (h : Plain s) : isIdle s = false := by
  simp [isIdle, h.ne_empty, h.ne_here]

theorem Plain.step (h : Plain s) : Step.ofSegment s = .name s := by
  rw [Step.ofSegment, if_neg h.ne_here, if_neg h.ne_up]

theorem Plain.added (h : Plain s) : added s = [.name s] := by
  rw [Path.added, segments_single h.no_slash, later_name h.kept, h.step]

theorem steps_join_plain (p : Path) (h : Plain s) : (p.join s).steps = p.steps ++ [.name s] := by
  by_cases hp : p.text = ""
  · rw [join_of_empty hp h.relative, steps_eq_nil_iff.mpr hp,
      steps_of_segments (segments_single h.no_slash), start, if_neg h.ne_empty, h.step]
    rfl
  · rw [steps_join hp h.relative, h.added]

theorem steps_foldl_join {names : List String} (p : Path) (h : ∀ s ∈ names, Plain s) :
    (names.foldl join p).steps = p.steps ++ names.map .name := by
  induction names generalizing p with
  | nil => exact (List.append_nil p.steps).symm
  | cons s names ih =>
    obtain ⟨hs, hnames⟩ := List.forall_mem_cons.mp h
    rw [List.foldl_cons, ih _ hnames, steps_join_plain p hs, List.map_cons, List.append_assoc,
      List.singleton_append]

/-- The names that a path is walked along. -/
def names (p : Path) : List String := p.segments.filter (!·.isEmpty)

theorem names_join {p : Path} (hp : p.text ≠ "") (h : Plain s) :
    (p.join s).names = p.names ++ [s] := by
  obtain ⟨a, hj, ha⟩ := join_slash hp h.relative
  have hs : [s].filter (!·.isEmpty) = [s] := by
    simp [h.ne_empty]
  rw [names, names, hj, segments_slash, List.filter_append, segments_single h.no_slash, hs]
  rcases ha with ha | ha
  · rw [← ha]
  · have hp : p.segments = (⟨a⟩ : Path).segments ++ [""] := by
      have hslash := segments_slash a ""
      rwa [String.append_empty, ← ha] at hslash
    rw [hp, List.filter_append]
    simp

/-- What the text of a path with a plain name at its end consists of. -/
theorem mem_text_join {p : Path} (hp : p.text ≠ "") (h : Plain s) {c : Char}
    (hc : c ∈ (p.join s).text.toList) : c ∈ p.text.toList ∨ c = '/' ∨ c ∈ s.toList := by
  obtain ⟨a, hj, ha⟩ := join_slash hp h.relative
  rw [hj] at hc
  simp only [String.toList_append, List.mem_append, or_assoc] at hc
  rcases hc with hc | hc | hc
  · left
    rcases ha with ha | ha
    · exact ha ▸ hc
    · rw [ha, String.toList_append]
      exact List.mem_append_left _ hc
  · exact .inr (.inl (List.mem_singleton.mp hc))
  · exact .inr (.inr hc)

theorem getLast?_text_join {p : Path} (hp : p.text ≠ "") (h : Plain s) :
    (p.join s).text.toList.getLast? ≠ some '/' := by
  obtain ⟨a, hj, -⟩ := join_slash hp h.relative
  intro hl
  rw [hj, String.toList_append, List.getLast?_append_of_ne_nil] at hl
  · exact h.no_slash (List.mem_of_getLast? hl)
  · simpa using h.ne_empty

variable {xs : List String}

theorem foldl_join_ne {p : Path} (hp : p.text ≠ "") (h : ∀ s ∈ xs, Plain s) :
    (xs.foldl join p).text ≠ "" := by
  induction xs generalizing p with
  | nil => exact hp
  | cons s xs ih =>
    obtain ⟨hs, hxs⟩ := List.forall_mem_cons.mp h
    exact ih (join_ne hs.ne_empty) hxs

theorem names_foldl_join {p : Path} (hp : p.text ≠ "") (h : ∀ s ∈ xs, Plain s) :
    (xs.foldl join p).names = p.names ++ xs := by
  induction xs generalizing p with
  | nil => exact (List.append_nil p.names).symm
  | cons s xs ih =>
    obtain ⟨hs, hxs⟩ := List.forall_mem_cons.mp h
    rw [List.foldl_cons, ih (join_ne hs.ne_empty) hxs, names_join hp hs, List.append_assoc,
      List.singleton_append]

theorem mem_text_foldl_join {p : Path} (hp : p.text ≠ "") (h : ∀ s ∈ xs, Plain s) {c : Char}
    (hc : c ∈ (xs.foldl join p).text.toList) :
    c ∈ p.text.toList ∨ c = '/' ∨ ∃ s ∈ xs, c ∈ s.toList := by
  induction xs generalizing p with
  | nil => exact .inl hc
  | cons s xs ih =>
    obtain ⟨hs, hxs⟩ := List.forall_mem_cons.mp h
    rcases ih (join_ne hs.ne_empty) hxs hc with hc | hc | ⟨x, hx, hc⟩
    · rcases mem_text_join hp hs hc with hc | hc | hc
      · exact .inl hc
      · exact .inr (.inl hc)
      · exact .inr (.inr ⟨s, List.mem_cons_self, hc⟩)
    · exact .inr (.inl hc)
    · exact .inr (.inr ⟨x, List.mem_cons_of_mem _ hx, hc⟩)

end Path
end ClassScribe
