import ClassScribe.Model.Facts
import ClassScribe.Proofs.Model.Subtree

/-! # Models without documentation

A model is bare when all documentation is taken out of it. Names, relationships and packages are
what they were, so everything that is asked of a model has the same answer in the bare one.
-/
namespace ClassScribe

def Attribute.bare (a : Attribute) : Attribute := { a with documentation := "" }

def Operation.bare (o : Operation) : Operation := { o with documentation := "" }

def Members.bare (ms : Members) : Members :=
  ⟨ms.attributes.map Attribute.bare, ms.operations.map Operation.bare⟩

def ElementKind.bare : ElementKind → ElementKind
  | classOf ms => .classOf ms.bare
  | interfaceOf ms => .interfaceOf ms.bare
  | k => k

def Element.bare (e : Element) : Element := { e with documentation := "", kind := e.kind.bare }

def Model.bare (m : Model) : Model := { m with elements := m.elements.map Element.bare }

@[simp] theorem Attribute.access?_bare (a : Attribute) : a.bare.access? = a.access? := rfl

@[simp] theorem Operation.access?_bare (o : Operation) : o.bare.access? = o.access? := rfl

theorem bucket_map {α : Type} {access? : α → Option Visibility} {f : α → α}
    (hf : ∀ x, access? (f x) = access? x) (v : Visibility) (xs : List α) :
    bucket access? v (xs.map f) = (bucket access? v xs).map f := by
  simp [bucket, List.filter_map, Function.comp_def, hf]

theorem Members.attributesWith_bare (ms : Members) (isStatic : Bool) :
    ms.bare.attributesWith isStatic = (ms.attributesWith isStatic).map Attribute.bare := by
  simp [Members.attributesWith, Members.bare, List.filter_map, Function.comp_def, Attribute.bare]

theorem ElementKind.members?_bare (k : ElementKind) :
    k.bare.members? = k.members?.map Members.bare := by
  cases k <;> rfl

theorem Element.isAnnotation_bare (e : Element) : e.bare.isAnnotation = e.isAnnotation := by
  unfold isAnnotation isClass
  cases hk : e.kind <;> simp [bare, ElementKind.bare, hk]

namespace Model

variable (m : Model) (root i : ElementId)

theorem element?_bare : m.bare.element? i = (m.element? i).map Element.bare :=
  Array.getElem?_map

@[simp] theorem name_bare : m.bare.name i = m.name i := by
  rw [name, name, element?_bare]
  cases m.element? i <;> rfl

theorem parent?_bare : m.bare.parent? i = m.parent? i := by
  rw [parent?, parent?, element?_bare]
  cases m.element? i <;> rfl

theorem lineage_bare : m.bare.lineage i = m.lineage i := by
  induction i using Nat.strongRecOn with
  | ind i ih =>
    have hb := m.parent?_bare i
    cases hp : m.parent? i with
    | none => rw [lineage_of_root hp, lineage_of_root (hb.trans hp)]
    | some p => rw [lineage_of_parent hp, lineage_of_parent (hb.trans hp), ih p (parent?_lt hp)]

@[simp] theorem segments_bare : m.bare.segments i root = m.segments i root := by
  simp [segments, ancestors, lineage_bare]

@[simp] theorem packagePath?_bare : m.bare.packagePath? i root = m.packagePath? i root := by
  simp [packagePath?]

@[simp] theorem superclasses_bare : m.bare.superclasses i = m.superclasses i := rfl

@[simp] theorem interfaces_bare : m.bare.interfaces i = m.interfaces i := rfl

@[simp] theorem held_bare : m.bare.held i = m.held i := by
  have ha : m.bare.associations i = m.associations i := rfl
  simp [held, ha]

end Model
end ClassScribe
