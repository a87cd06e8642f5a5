import ClassScribe.Proofs.Source.Dependencies
import ClassScribe.Proofs.Generate.Walk
import ClassScribe.Proofs.Text.Lines
import ClassScribe.Proofs.Text.Stem

/-! # Models without line breaks

In a model whose names and default values have no line breaks, nothing that a source derives from
them has one.
-/
namespace ClassScribe
open Text

def Attribute.Unbroken (a : Attribute) : Prop :=
  Text.Unbroken a.name ∧ Text.Unbroken a.defaultValue

def Operation.Unbroken (op : Operation) : Prop :=
  Text.Unbroken op.name ∧ ∀ p ∈ op.parameters, Text.Unbroken p.name

structure Members.Unbroken (ms : Members) : Prop where
  attributes : ∀ a ∈ ms.attributes, a.Unbroken
  operations : ∀ op ∈ ms.operations, op.Unbroken

def Element.Unbroken (e : Element) : Prop :=
  Text.Unbroken e.name ∧ ∀ ms ∈ e.kind.members?, ms.Unbroken

/-- No name of an element, a member or a parameter, and no default value, has a line break. -/
def Model.Unbroken (m : Model) : Prop := ∀ e ∈ m.elements, e.Unbroken

instance (a : Attribute) : Decidable a.Unbroken := inferInstanceAs (Decidable (_ ∧ _))

instance (op : Operation) : Decidable op.Unbroken := inferInstanceAs (Decidable (_ ∧ _))

instance (ms : Members) : Decidable ms.Unbroken :=
  decidable_of_iff ((∀ a ∈ ms.attributes, a.Unbroken) ∧ ∀ op ∈ ms.operations, op.Unbroken)
    ⟨fun h => ⟨h.1, h.2⟩, fun h => ⟨h.attributes, h.operations⟩⟩

instance (e : Element) : Decidable e.Unbroken := inferInstanceAs (Decidable (_ ∧ _))

instance (m : Model) : Decidable m.Unbroken := inferInstanceAs (Decidable (∀ e ∈ m.elements, _))

theorem Operation.Unbroken.signature {op : Operation} (h : op.Unbroken) :
    ∀ s ∈ op.signature, Text.Unbroken s := by
  intro s hs
  obtain ⟨p, hp, rfl⟩ := List.mem_map.mp hs
  exact h.2 p (List.mem_of_mem_filter hp)

namespace Source

theorem unbroken_initialValue {a : Attribute} (h : a.Unbroken) : Text.Unbroken (initialValue a) := by
  rw [initialValue]
  split
  · decide
  · exact h.2.of_subset fun c hc => trim_subset hc

theorem unbroken_symbols {names : List String} (h : ∀ s ∈ names, Text.Unbroken s) :
    Text.Unbroken (symbols names) := by
  refine Text.Unbroken.intercalate (by decide) fun s hs => ?_
  obtain ⟨n, hn, rfl⟩ := List.mem_map.mp hs
  exact Text.Unbroken.append (by decide) (h n hn)

theorem unbroken_signature {name : String} {parameters : List String} (hn : Text.Unbroken name)
    (hp : ∀ s ∈ parameters, Text.Unbroken s) : Text.Unbroken (signature name parameters) := by
  refine (Text.Unbroken.append (by decide) hn).append ?_
  split
  · decide
  · exact (Text.Unbroken.append (by decide) (Text.Unbroken.intercalate (by decide) hp)).append
      (by decide)

theorem unbroken_scopedPath {path : String} (h : Text.Unbroken path) :
    Text.Unbroken (scopedPath path) := by
  rw [scopedPath, Text.Unbroken, String.toList_ofList, List.mem_flatMap]
  rintro ⟨c, hc, hb⟩
  split at hb
  · simp at hb
  · exact h (List.mem_singleton.mp hb ▸ hc)

end Source

namespace Model.Unbroken

variable {m : Model} (h : m.Unbroken) (root i : ElementId)

include h

theorem name : Text.Unbroken (m.name i) := by
  cases he : m.element? i with
  | none => simp [Model.name, he, Text.Unbroken]
  | some e =>
    rw [Generate.name_of_element he]
    exact (h e (Array.mem_of_getElem? he)).1

theorem stem : Text.Unbroken (Text.stem (m.name i)) := by
  rw [Text.stem, Text.Unbroken, String.toList_ofList]
  exact fun hb => h.name i (mem_of_mem_stemChars (by decide) hb)

theorem segments : ∀ s ∈ m.segments i root, Text.Unbroken s := by
  intro s hs
  obtain ⟨k, -, rfl⟩ := List.mem_map.mp hs
  exact h.name k

theorem packagePath {path : String} (hp : m.packagePath? i root = some path) :
    Text.Unbroken path := by
  rw [Model.packagePath?] at hp
  split at hp
  · cases hp
  · rename_i names _
    obtain rfl := Option.some.inj hp
    exact Text.Unbroken.intercalate (by decide) (h.segments root i)

theorem moduleNames : ∀ s ∈ Source.moduleNames (m.packagePath? i root), Text.Unbroken s := by
  intro s hs
  cases hp : m.packagePath? i root with
  | none =>
    rw [hp] at hs
    cases hs
  | some path =>
    rw [hp] at hs
    obtain ⟨l, hl, rfl⟩ := List.mem_map.mp hs
    rw [Text.Unbroken, String.toList_ofList]
    exact fun hb => h.packagePath root i hp (mem_of_mem_splitOn hl hb)

theorem constantName : Text.Unbroken (Source.constantName m root i) := by
  rw [Source.constantName]
  split
  · exact h.name i
  · rename_i path hp
    exact ((Source.unbroken_scopedPath (h.packagePath root i hp)).append (by decide)).append (h.name i)

theorem requirePath (j : ElementId) : Text.Unbroken (Source.requirePath m root i j) := by
  refine Text.Unbroken.intercalate (by decide) fun s hs => ?_
  rcases List.mem_append.mp hs with hs | hs
  · rcases List.mem_append.mp hs with hs | hs
    · rw [List.eq_of_mem_replicate hs]
      decide
    · exact h.segments root j s (List.mem_of_mem_drop hs)
  · rw [List.mem_singleton.mp hs]
    exact ((h.stem j).append (by decide)).append (by decide)

theorem classHeader (f : Source.ClassFacts) : Text.Unbroken (Source.classHeader m root f) := by
  refine (Text.Unbroken.append (by decide) (h.name f.id)).append ?_
  cases f.superclass with
  | none => exact (by decide : Text.Unbroken "")
  | some j => exact Text.Unbroken.append (by decide) (h.constantName root j)

end Model.Unbroken
end ClassScribe
