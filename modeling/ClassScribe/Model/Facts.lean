import ClassScribe.Model.Basic
import ClassScribe.Text.Stem

/-! # What the relationships say about an element

Superclasses, realized interfaces, references held through navigable ends, and the packages around
an element below a chosen root. Members are told apart by their visibility.
-/
namespace ClassScribe

/-- The members with one visibility, in the order of their declaration. -/
def bucket {α : Type} (access? : α → Option Visibility) (v : Visibility) (members : List α) :
    List α :=
  members.filter fun x => access? x == some v

def Members.attributesWith (m : Members) (isStatic : Bool) : List Attribute :=
  m.attributes.filter (·.isStatic == isStatic)

/-- An element that another one holds a reference to, under the stem of its name. -/
structure Held where
  element : ElementId
  stem : String
  deriving DecidableEq, Repr

def Relationship.superclassOf? (i : ElementId) : Relationship → Option ElementId
  | .generalization source target => if source = i then some target else none
  | _ => none

def Relationship.interfaceOf? (i : ElementId) : Relationship → Option ElementId
  | .realization source target => if source = i then some target else none
  | _ => none

def Relationship.association? : Relationship → Option Association
  | .association a => some a
  | _ => none

theorem Relationship.association?_eq_some {r : Relationship} {a : Association} :
    r.association? = some a ↔ r = .association a := by
  cases r <;> simp [association?]

/-- What `i` can reach through an association, the second end first. -/
def Association.reachable (a : Association) (i : ElementId) : List ElementId :=
  (if a.end1.element = i && a.end2.navigable then [a.end2.element] else []) ++
    (if a.end2.element = i && a.end1.navigable then [a.end1.element] else [])

namespace Model

variable (m : Model)

def superclasses (i : ElementId) : List ElementId :=
  (m.relationshipsOf i).filterMap (·.superclassOf? i)

def interfaces (i : ElementId) : List ElementId :=
  (m.relationshipsOf i).filterMap (·.interfaceOf? i)

def associations (i : ElementId) : List Association :=
  (m.relationshipsOf i).filterMap (·.association?)

def held (i : ElementId) : List Held :=
  ((m.associations i).flatMap (·.reachable i)).map fun j => ⟨j, Text.stem (m.name j)⟩

/-- The names of the packages around `i` below `root`, outermost first. -/
def segments (i root : ElementId) : List String := (m.ancestors i root).map m.name

/-- The same, joined by dots; none directly below the root. -/
def packagePath? (i root : ElementId) : Option String :=
  match m.segments i root with
  | [] => none
  | names => some (".".intercalate names)

end Model
end ClassScribe
