import ClassScribe.Proofs.Source.Layout

/-! # Blocks within others

Blocks that stand in a row among others, or in the body of one of them, are written in a row,
wherever all of them are written. The body of a class is so within the file of the class.
-/
namespace ClassScribe.Source

/-- Wherever the others are written, the lines of `part` are among theirs, in a row. -/
def Within (part bs : List Block) : Prop :=
  ∀ unit depth, ∃ d, layout unit d part <:+: layout unit depth bs

namespace Within

variable {part bs cs : List Block}

theorem refl (bs : List Block) : Within bs bs := fun _ depth => ⟨depth, List.infix_rfl⟩

theorem nil (bs : List Block) : Within [] bs := by
  intro unit depth
  refine ⟨depth, ?_⟩
  rw [layout, rows_nil]
  exact List.nil_infix

theorem trans (h : Within part bs) (h' : Within bs cs) : Within part cs := by
  intro unit depth
  obtain ⟨d, hd⟩ := h' unit depth
  obtain ⟨d', hd'⟩ := h unit d
  exact ⟨d', hd'.trans hd⟩

theorem before (h : Within part bs) (cs : List Block) : Within part (bs ++ cs) := by
  intro unit depth
  obtain ⟨d, hd⟩ := h unit depth
  rw [layout_append]
  exact ⟨d, hd.trans (List.prefix_append _ _).isInfix⟩

theorem after (h : Within part bs) (cs : List Block) : Within part (cs ++ bs) := by
  intro unit depth
  obtain ⟨d, hd⟩ := h unit depth
  rw [layout_append]
  exact ⟨d, hd.trans (List.suffix_append _ _).isInfix⟩

theorem scope (header : String) (body : List Block) : Within body [.scope header body] := by
  intro unit depth
  rw [layout_scope]
  exact ⟨depth + 1, [_], [_], rfl⟩

theorem under (v : Visibility) (body : List Block) : Within body [.under v body] := by
  intro unit depth
  rw [layout_under]
  exact ⟨depth + 1, (List.suffix_cons _ _).isInfix⟩

theorem separated {g : List Block} {gs : List (List Block)} (hg : g ∈ gs) :
    Within g (separated gs) := by
  induction gs with
  | nil => cases hg
  | cons g' gs ih =>
    cases gs with
    | nil =>
      rw [separated_singleton, List.mem_singleton.mp hg]
      exact refl g'
    | cons g'' gs =>
      rw [separated_cons_cons]
      rcases List.mem_cons.mp hg with rfl | hg
      · exact (refl g).before _
      · exact ((ih hg).after [.gap]).after g'

theorem inModules (above inner : List Block) (names : List String) :
    Within inner (inModules above inner names) := by
  induction names with
  | nil => exact refl inner
  | cons name names ih =>
    cases names with
    | nil => exact (scope _ inner).after above
    | cons name' names => exact ih.trans (scope _ _)

variable {m : Model} {root : ElementId} {o : Options}

theorem classDefinition (m : Model) (root : ElementId) (o : Options) (e : Element) (f : ClassFacts) :
    Within (classBody m root o f) (classDefinition m root o e f) :=
  ((scope _ _).after _).trans (inModules _ _ _)

theorem classFile (m : Model) (root : ElementId) (o : Options) (e : Element) (ms : Members) :
    Within (classBody m root o (ClassFacts.of m root e.id ms)) (classFile m root o e ms) :=
  (classDefinition m root o e _).trans
    (separated (List.mem_append_right _ (List.mem_singleton_self _)))

end Within

/-- A section that a class has is written somewhere in its file. -/
theorem within_classFile {m : Model} {root : ElementId} {o : Options} {e : Element} {ms : Members}
    {s : Section} (hs : s.applies (ClassFacts.of m root e.id ms) o = true) :
    Within (s.blocks m root o (ClassFacts.of m root e.id ms)) (classFile m root o e ms) := by
  have hplan : s ∈ plan (ClassFacts.of m root e.id ms) o :=
    List.mem_filter.mpr ⟨by cases s <;> decide, hs⟩
  exact (Within.separated (List.mem_map_of_mem hplan)).trans (Within.classFile m root o e ms)

end ClassScribe.Source
