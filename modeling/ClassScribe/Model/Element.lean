import ClassScribe.Snapshot.Document

/-! # Elements and relationships of a model

Elements are numbered in the order of their declaration, depth first, and refer to each other by
number.
-/
namespace ClassScribe

abbrev ElementId := Nat

inductive Visibility where
  | publicAccess
  | protectedAccess
  | privateAccess
  deriving DecidableEq, Repr

/-- The word for a visibility, in models and in sources. -/
def Visibility.marker : Visibility → String
  | .publicAccess => "public"
  | .protectedAccess => "protected"
  | .privateAccess => "private"

/-- Any other marker means no visibility. -/
def Visibility.ofMarker? (s : String) : Option Visibility :=
  if s = "public" then some .publicAccess
  else if s = "protected" then some .protectedAccess
  else if s = "private" then some .privateAccess
  else none

inductive Direction where
  | input
  | both
  | output
  | result
  deriving DecidableEq, Repr

/-- Whatever is not known is an input. -/
def Direction.ofMarker (s : String) : Direction :=
  if s = "return" then .result
  else if s = "out" then .output
  else if s = "inout" then .both
  else .input

structure Parameter where
  name : String
  direction : Direction
  deriving DecidableEq, Repr

structure Operation where
  name : String
  visibility : String
  documentation : String
  parameters : List Parameter
  deriving DecidableEq, Repr

/-- The names of the parameters that a signature shows. -/
def Operation.signature (o : Operation) : List String :=
  (o.parameters.filter (·.direction != .result)).map (·.name)

def Attribute.access? (a : Attribute) : Option Visibility := Visibility.ofMarker? a.visibility

def Operation.access? (o : Operation) : Option Visibility := Visibility.ofMarker? o.visibility

structure Members where
  attributes : List Attribute
  operations : List Operation
  deriving DecidableEq, Repr

inductive ElementKind where
  | package (owned : List ElementId)
  | classOf (members : Members)
  | interfaceOf (members : Members)
  /-- Anything else, which no source is generated for. -/
  | other (label : String)
  deriving DecidableEq, Repr

structure Element where
  id : ElementId
  /-- The explicit id, or else the name. -/
  key : String
  name : String
  documentation : String
  stereotype : Option String
  parent : Option ElementId
  kind : ElementKind
  deriving DecidableEq, Repr

namespace ElementKind

def label : ElementKind → String
  | package _ => "package"
  | classOf _ => "class"
  | interfaceOf _ => "interface"
  | other label => label

def owned : ElementKind → List ElementId
  | package owned => owned
  | _ => []

def members? : ElementKind → Option Members
  | classOf m => some m
  | interfaceOf m => some m
  | _ => none

end ElementKind

namespace Element

def isClass (e : Element) : Bool :=
  match e.kind with
  | .classOf _ => true
  | _ => false

def isAnnotation (e : Element) : Bool := e.isClass && e.stereotype == some "annotationType"

end Element

structure AssociationEnd where
  element : ElementId
  navigable : Bool
  deriving DecidableEq, Repr

structure Association where
  /-- Empty when the association has no name. -/
  name : String
  end1 : AssociationEnd
  end2 : AssociationEnd
  deriving DecidableEq, Repr

inductive RelationshipKind where
  | generalization
  | realization
  | association
  deriving DecidableEq, Repr

def RelationshipKind.name : RelationshipKind → String
  | .generalization => "generalization"
  | .realization => "interfaceRealization"
  | .association => "association"

inductive Relationship where
  /-- The source inherits from the target. -/
  | generalization (source target : ElementId)
  /-- The source implements the target. -/
  | realization (source target : ElementId)
  | association (a : Association)
  deriving DecidableEq, Repr

namespace Relationship

def kind : Relationship → RelationshipKind
  | generalization _ _ => .generalization
  | realization _ _ => .realization
  | association _ => .association

def ends : Relationship → ElementId × ElementId
  | generalization source target => (source, target)
  | realization source target => (source, target)
  | association a => (a.end1.element, a.end2.element)

def touches (r : Relationship) (i : ElementId) : Bool := r.ends.1 == i || r.ends.2 == i

end Relationship
end ClassScribe
