import ClassScribe.Model.Facts
import ClassScribe.Proofs.Model.Subtree

/-! # Renumbered models

A model is renumbered when its elements have other numbers, and parents and relationships go along
with them. What the packages own may come in another order. Everything that is asked of a model by
way of parents and relationships has the same answer, in the other numbers.
-/
namespace ClassScribe

variable (r : ElementId → ElementId)

def ElementKind.unowned : ElementKind → ElementKind
  | package _ => .package []
  | k => k

/-- Only packages own anything. -/
theorem ElementKind.unowned_cases {k k' : ElementKind} (h : k'.unowned = k.unowned) :
    k' = k ∨ ∃ owned owned', k = .package owned ∧ k' = .package owned' := by
  cases k with
  | package owned =>
    cases k' with
    | package owned' => exact .inr ⟨owned, owned', rfl, rfl⟩
    | _ => cases h
  | _ =>
    cases k' with
    | package owned' => cases h
    | _ => exact .inl h

/-- An element without what it owns. -/
def Element.unowned (e : Element) : Element := { e with kind := e.kind.unowned }

def Element.renumber (e : Element) : Element := { e with id := r e.id, parent := e.parent.map r }

def AssociationEnd.renumber (x : AssociationEnd) : AssociationEnd :=
  { x with element := r x.element }

def Association.renumber (a : Association) : Association :=
  { a with end1 := a.end1.renumber r, end2 := a.end2.renumber r }

def Relationship.renumber : Relationship → Relationship
  | generalization source target => generalization (r source) (r target)
  | realization source target => realization (r source) (r target)
  | association a => association (a.renumber r)

def Held.renumber (h : Held) : Held := { h with element := r h.element }

/-- The elements of `m` are in `m'` under other numbers. -/
structure Model.SameTree (m m' : Model) : Prop where
  injective : Function.Injective r
  element : ∀ i, (m'.element? (r i)).map Element.unowned =
    (m.element? i).map fun e => (e.renumber r).unowned
  parent? : ∀ i, m'.parent? (r i) = (m.parent? i).map r

/-- So are the relationships between them. -/
structure Model.Renumbers (m m' : Model) : Prop extends Model.SameTree r m m' where
  relationships : m'.relationships = m.relationships.map (·.renumber r)

theorem Association.reachable_renumber {r : ElementId → ElementId} (hr : Function.Injective r)
    (a : Association) (i : ElementId) : (a.renumber r).reachable (r i) = (a.reachable i).map r := by
  rw [reachable, reachable, List.map_append, apply_ite (List.map r), apply_ite (List.map r)]
  simp only [renumber, AssociationEnd.renumber, hr.eq_iff, List.map_singleton, List.map_nil]

namespace Model.SameTree

variable {r} {m m' : Model} {i j root : ElementId} (h : SameTree r m m')
include h

theorem element_some {e : Element} (he : m.element? i = some e) :
    ∃ e', m'.element? (r i) = some e' ∧ e'.unowned = (e.renumber r).unowned := by
  have hi := h.element i
  rw [he, Option.map_some] at hi
  exact Option.map_eq_some_iff.mp hi

theorem element_none (he : m.element? i = none) : m'.element? (r i) = none := by
  have hi := h.element i
  rw [he, Option.map_none] at hi
  exact Option.map_eq_none_iff.mp hi

theorem name (i : ElementId) : m'.name (r i) = m.name i := by
  cases he : m.element? i with
  | none => rw [Model.name, Model.name, h.element_none he, he]
  | some e =>
    obtain ⟨e', he', hsame⟩ := h.element_some he
    rw [Model.name, Model.name, he', he]
    exact (congrArg Element.name hsame :)

theorem lineage (i : ElementId) : m'.lineage (r i) = (m.lineage i).map r := by
  induction i using Nat.strongRecOn with
  | ind i ih =>
    have hi := h.parent? i
    cases hp : m.parent? i with
    | none =>
      rw [hp, Option.map_none] at hi
      rw [lineage_of_root hp, lineage_of_root hi]
      rfl
    | some p =>
      rw [hp, Option.map_some] at hi
      rw [lineage_of_parent hp, lineage_of_parent hi, ih p (parent?_lt hp)]
      rfl

theorem ancestors (i root : ElementId) :
    m'.ancestors (r i) (r root) = (m.ancestors i root).map r := by
  have hmem : (m'.lineage (r i)).contains (r root) = (m.lineage i).contains root := by
    rw [h.lineage, Bool.eq_iff_iff, List.contains_iff_mem, List.contains_iff_mem,
      List.mem_map_of_injective h.injective]
  have hne : (fun j => r j != r root) = (· != root) := by
    funext j
    rw [bne, bne, h.injective.beq_eq]
  rw [Model.ancestors, Model.ancestors, hmem, h.lineage, List.takeWhile_map]
  split
  · rw [List.map_reverse]
    exact congrArg (fun p => (((m.lineage i).takeWhile p).map r).reverse) hne
  · rfl

theorem segments (i root : ElementId) : m'.segments (r i) (r root) = m.segments i root := by
  rw [Model.segments, Model.segments, h.ancestors, List.map_map]
  exact List.map_congr_left fun j _ => h.name j

theorem packagePath? (i root : ElementId) :
    m'.packagePath? (r i) (r root) = m.packagePath? i root := by
  rw [Model.packagePath?, Model.packagePath?, h.segments]

end Model.SameTree

namespace Model.Renumbers

variable {r} {m m' : Model} {i j root : ElementId} (h : Renumbers r m m')
include h

theorem touches (x : Relationship) (i : ElementId) :
    (x.renumber r).touches (r i) = x.touches i := by
  cases x with
  | generalization source target | realization source target =>
    exact congrArg₂ (· || ·) h.injective.beq_eq h.injective.beq_eq
  | association a => exact congrArg₂ (· || ·) h.injective.beq_eq h.injective.beq_eq

theorem relationshipsOf (i : ElementId) :
    m'.relationshipsOf (r i) = (m.relationshipsOf i).map (·.renumber r) := by
  rw [Model.relationshipsOf, Model.relationshipsOf, h.relationships, List.filter_map]
  exact congrArg (List.map _) (List.filter_congr fun x _ => h.touches x i)

theorem superclasses (i : ElementId) : m'.superclasses (r i) = (m.superclasses i).map r := by
  rw [Model.superclasses, Model.superclasses, h.relationshipsOf, List.filterMap_map,
    List.map_filterMap]
  apply List.filterMap_congr
  intro x _
  cases x with
  | generalization source target =>
    simp only [Function.comp, Relationship.renumber, Relationship.superclassOf?,
      h.injective.eq_iff]
    split <;> rfl
  | realization source target => rfl
  | association a => rfl

theorem interfaces (i : ElementId) : m'.interfaces (r i) = (m.interfaces i).map r := by
  rw [Model.interfaces, Model.interfaces, h.relationshipsOf, List.filterMap_map,
    List.map_filterMap]
  apply List.filterMap_congr
  intro x _
  cases x with
  | realization source target =>
    simp only [Function.comp, Relationship.renumber, Relationship.interfaceOf?,
      h.injective.eq_iff]
    split <;> rfl
  | generalization source target => rfl
  | association a => rfl

theorem associations (i : ElementId) :
    m'.associations (r i) = (m.associations i).map (·.renumber r) := by
  rw [Model.associations, Model.associations, h.relationshipsOf, List.filterMap_map,
    List.map_filterMap]
  apply List.filterMap_congr
  intro x _
  cases x <;> rfl

theorem held (i : ElementId) : m'.held (r i) = (m.held i).map (·.renumber r) := by
  have hreach : (m'.associations (r i)).flatMap (·.reachable (r i)) =
      ((m.associations i).flatMap (·.reachable i)).map r := by
    rw [h.associations, List.flatMap_map, List.map_flatMap]
    exact List.flatMap_congr fun a _ => a.reachable_renumber h.injective i
  rw [Model.held, Model.held, hreach, List.map_map, List.map_map]
  apply List.map_congr_left
  intro j _
  simp only [Function.comp, Held.renumber, h.name]

end Model.Renumbers
end ClassScribe
