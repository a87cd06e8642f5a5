import ClassScribe.Proofs.Generate.Walk
import ClassScribe.Proofs.Path.Plain
import ClassScribe.Proofs.Text.Stem

/-! # Names and the places they lead to

What the names of elements say about the places in a run. Without names from the root of the file
system, everything below a package lies below its directory; with plain names, every package adds
one step.
-/
namespace ClassScribe

namespace Source

variable {m : Model} {i : ElementId}

theorem toList_fileName : (fileName m i).toList =
    Text.stemChars false (m.name i).toList ++ ['.', 'r', 'b'] := by
  simp [fileName, extension, Text.stem]

theorem plain_fileName (h : '/' ∉ (m.name i).toList) : Path.Plain (fileName m i) := by
  have ends : ['.', 'r', 'b'] <:+ (fileName m i).toList := toList_fileName ▸ List.suffix_append _ _
  refine ⟨?_, ?_, ?_, ?_⟩
  · intro he
    exact absurd (he ▸ ends) (by decide)
  · intro he
    exact absurd (he ▸ ends) (by decide)
  · intro he
    exact absurd (he ▸ ends) (by decide)
  · rw [toList_fileName]
    intro hs
    rcases List.mem_append.mp hs with hs | hs
    · exact h (Text.mem_of_mem_stemChars (by decide) hs)
    · exact absurd hs (by decide)

theorem nul_fileName (h : Char.ofNat 0 ∉ (m.name i).toList) :
    Char.ofNat 0 ∉ (fileName m i).toList := by
  rw [toList_fileName]
  intro hc
  rcases List.mem_append.mp hc with hc | hc
  · exact h (Text.mem_of_mem_stemChars (by decide) hc)
  · exact absurd hc (by decide)

theorem added_fileName (m : Model) (i : ElementId) : Path.added (fileName m i) ≠ [] := by
  have hr : 'r' ∈ (fileName m i).toList := by simp [toList_fileName]
  exact Path.added_ne_nil hr (by decide) (by decide)

theorem relative_fileName (h : Path.isAbsolute (m.name i) = false) :
    Path.isAbsolute (fileName m i) = false := by
  by_contra habs
  rw [Path.isAbsolute, Bool.not_eq_false, beq_iff_eq, toList_fileName, List.head?_append] at habs
  have hs : (Text.stemChars false (m.name i).toList).head? = some '/' := by
    cases hc : (Text.stemChars false (m.name i).toList).head? with
    | none => simp [hc] at habs
    | some c => simpa [hc] using habs
  simp [Path.isAbsolute, Text.head_stemChars (by decide) hs] at h

end Source

namespace Generate

variable {m : Model} {root i q x : ElementId} {base : Path} {s : String}

theorem entryName?_cases (h : entryName? m i = some s) : s = m.name i ∨ s = Source.fileName m i := by
  cases he : m.element? i with
  | none => simp [entryName?, he] at h
  | some e =>
    rw [name_of_element he]
    cases hk : e.kind <;> simp_all [entryName?]

/-- What holds of all names, and of a file name with the name it is made of, holds of every entry. -/
theorem entry_of_names {P : String → Prop} (hP : ∀ e ∈ m.elements, P e.name)
    (hfile : P (m.name i) → P (Source.fileName m i)) (h : entryName? m i = some s) : P s := by
  have hi : P (m.name i) := by
    cases he : m.element? i with
    | none => simp [entryName?, he] at h
    | some e => exact name_of_element he ▸ hP e (Array.mem_of_getElem? he)
  rcases entryName?_cases h with rfl | rfl
  · exact hi
  · exact hfile hi

theorem relative_entry (hn : ∀ e ∈ m.elements, Path.isAbsolute e.name = false)
    (h : entryName? m i = some s) : Path.isAbsolute s = false :=
  entry_of_names (P := (Path.isAbsolute · = false)) hn Source.relative_fileName h

theorem plain_entry (hn : ∀ e ∈ m.elements, Path.Plain e.name)
    (h : entryName? m i = some s) : Path.Plain s :=
  entry_of_names hn (fun hi => Source.plain_fileName hi.no_slash) h

theorem steps_directoryPath (hp : (placeOf m root base i).text ≠ "")
    (hi : Path.isAbsolute (m.name i) = false) : (directoryPath m root base i).steps =
      (placeOf m root base i).steps ++ Path.added (m.name i) :=
  Path.steps_join hp hi

theorem directory_ne (hn : ∀ i s, entryName? m i = some s → Path.Plain s) (root : ElementId)
    (base : Path) (hi : m.IsPackage i) : (directoryPath m root base i).text ≠ "" :=
  Path.join_ne (hn i _ (entryName?_of_package hi)).ne_empty

/-- What lies below a package is placed below its directory. -/
theorem place_below (ht : m.IsTree)
    (hn : ∀ i s, entryName? m i = some s → Path.isAbsolute s = false)
    (hq : m.isWithin q root = true) (hne : (directoryPath m root base q).text ≠ "")
    (hx : m.isWithin x q = true) (hxq : x ≠ q) :
    (directoryPath m root base q).steps <+: (placeOf m root base x).steps := by
  induction x using Nat.strongRecOn with
  | ind x ih =>
    cases hp : m.parent? x with
    | none => exact absurd ((Model.isWithin_top hp).mp hx) hxq
    | some p =>
      have hpq := ((Model.isWithin_step hp).mp hx).resolve_left hxq
      rw [placeOf_child hp (Model.isWithin_trans hpq hq)]
      by_cases he : p = q
      · exact he ▸ List.prefix_rfl
      · have hup := ih p (Model.parent?_lt hp) hpq he
        have hpne := Path.text_ne_of_prefix hup hne
        rw [steps_directoryPath hpne (hn p _ (entryName?_of_parent ht hp))]
        exact hup.trans (List.prefix_append _ _)

theorem directory_below (ht : m.IsTree)
    (hn : ∀ i s, entryName? m i = some s → Path.isAbsolute s = false)
    (hq : m.isWithin q root = true) (hne : (directoryPath m root base q).text ≠ "")
    (hx : m.isWithin x q = true) (hpx : m.IsPackage x) :
    (directoryPath m root base q).steps <+: (directoryPath m root base x).steps := by
  by_cases hxq : x = q
  · exact hxq ▸ List.prefix_rfl
  · have hup := place_below ht hn hq hne hx hxq
    rw [steps_directoryPath (Path.text_ne_of_prefix hup hne) (hn x _ (entryName?_of_package hpx))]
    exact hup.trans (List.prefix_append _ _)

/-- With plain names, every place from the directory of the root down to that of a package is the
directory of a package around it. -/
theorem package_at (ht : m.IsTree) (hn : ∀ i s, entryName? m i = some s → Path.Plain s)
    (hne : (directoryPath m root base root).text ≠ "") (hx : m.isWithin x root = true)
    (hpx : m.IsPackage x) {place : List Path.Step}
    (hp : place <+: (directoryPath m root base x).steps)
    (hlen : (directoryPath m root base root).steps.length ≤ place.length) :
    ∃ q, m.isWithin x q = true ∧ m.isWithin q root = true ∧
      (directoryPath m root base q).steps = place := by
  induction x using Nat.strongRecOn with
  | ind x ih =>
    by_cases hxr : x = root
    · subst hxr
      exact ⟨x, hx, hx, (hp.eq_of_length_le hlen).symm⟩
    · have hup := place_below ht (fun i s h => (hn i s h).relative) (m.isWithin_self root) hne hx hxr
      have hxne := Path.text_ne_of_prefix hup hne
      have hplain := hn x _ (entryName?_of_package hpx)
      rw [steps_directoryPath hxne hplain.relative, hplain.added] at hp
      rcases List.prefix_concat_iff.mp hp with rfl | hp
      · refine ⟨x, m.isWithin_self x, hx, ?_⟩
        rw [steps_directoryPath hxne hplain.relative, hplain.added]
      · obtain ⟨p, hpar, hpr, hplace⟩ := (placeOf_cases base hx).resolve_left hxr
        rw [hplace] at hp
        obtain ⟨q, hpq, hq, he⟩ := ih p (Model.parent?_lt hpar) hpr (ht.isPackage_of_child hpar) hp
        exact ⟨q, (Model.isWithin_step hpar).mpr (.inr hpq), hq, he⟩

end Generate
end ClassScribe
