import ClassScribe.Proofs.Source.Layout

/-! # What a class depends on

A class depends on the elements it holds references to, on its first superclass and on its first
interface, whatever kind of element they are and wherever they lie. Each of these three groups has
its require lines at the head of the file, in front of the definition.
-/
namespace ClassScribe

/-- The elements that a class depends on, in groups. -/
def Model.dependencies (m : Model) (i : ElementId) : List (List ElementId) :=
  (if (m.held i).isEmpty then [] else [(m.held i).map (·.element)]) ++
    (m.superclasses i).head?.toList.map (fun t => [t]) ++
    (m.interfaces i).head?.toList.map fun t => [t]

namespace Source

theorem requireGroups_eq (m : Model) (root i : ElementId) (ms : Members) :
    requireGroups m root (ClassFacts.of m root i ms) =
      (m.dependencies i).map (·.map fun t => .line (requireLine m root i t)) := by
  by_cases h : m.held i = [] <;>
    simp [requireGroups, ClassFacts.of, Model.dependencies, h, Function.comp_def]

theorem requireLine_eq (m : Model) (root i t : ElementId) :
    requireLine m root i t = "require_relative '" ++ requirePath m root i t ++ "'" := by
  delta requireLine
  exact Eq.refl _

variable {m : Model} {i : ElementId}

theorem dependencies_ne_nil {ts : List ElementId} (h : ts ∈ m.dependencies i) : ts ≠ [] := by
  simp only [Model.dependencies, List.mem_append, List.mem_map] at h
  rcases h with (h | ⟨t, -, rfl⟩) | ⟨t, -, rfl⟩
  · split at h
    · cases h
    · rename_i hne
      rw [List.mem_singleton.mp h]
      simpa using hne
  · exact List.cons_ne_nil t []
  · exact List.cons_ne_nil t []

theorem classFile_groups_ne_nil (m : Model) (root : ElementId) (o : Options) (e : Element)
    (f : ClassFacts) (i : ElementId) : ∀ g ∈ ((m.dependencies i).map (·.map fun t =>
      Block.line (requireLine m root i t))) ++ [classDefinition m root o e f], g ≠ [] := by
  intro g hg
  rcases List.mem_append.mp hg with hg | hg
  · obtain ⟨ts, hts, rfl⟩ := List.mem_map.mp hg
    exact mt List.map_eq_nil_iff.mp (dependencies_ne_nil hts)
  · exact List.mem_singleton.mp hg ▸ classDefinition_ne_nil m root o e f

theorem classFile_ne_nil (m : Model) (root : ElementId) (o : Options) (e : Element) (ms : Members) :
    classFile m root o e ms ≠ [] := by
  rw [classFile, requireGroups_eq]
  exact separated_ne_nil (by simp) (classFile_groups_ne_nil m root o e _ e.id)

theorem render?_class (m : Model) (root : ElementId) (o : Options) {i : ElementId} {e : Element}
    {ms : Members} (he : m.element? i = some e) (hk : e.kind = .classOf ms)
    (ha : e.isAnnotation = false) :
    render? m root o i = some ⟨fileName m i, print o (classFile m root o e ms)⟩ := by
  simp [render?, he, blocks?, hk, ha]

/-- The text of a class is its require lines, in groups, and its definition. -/
theorem print_classFile (m : Model) (root : ElementId) (o : Options) (e : Element) (ms : Members) :
    print o (classFile m root o e ms) = "\n\n".intercalate
      ((m.dependencies e.id).map (fun ts => "\n".intercalate (ts.map fun t =>
        "require_relative '" ++ requirePath m root e.id t ++ "'")) ++
        [print o (classDefinition m root o e (ClassFacts.of m root e.id ms))]) := by
  have hgroup (ts : List ElementId) : print o (ts.map fun t => .line (requireLine m root e.id t)) =
      "\n".intercalate (ts.map fun t => "require_relative '" ++ requirePath m root e.id t ++ "'") := by
    simp only [requireLine_eq]
    rw [← print_lines o, List.map_map]
    exact congrArg (fun bs => print o bs) (Eq.refl _)
  rw [classFile, requireGroups_eq, print_separated o (classFile_groups_ne_nil m root o e _ e.id),
    List.map_append, List.map_map]
  simp only [Function.comp_def, hgroup, List.map_singleton]

end Source
end ClassScribe
