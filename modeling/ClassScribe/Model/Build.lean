import ClassScribe.Model.Basic
import ClassScribe.Note

/-! # Building models

The packages of a snapshot are walked depth first and every element met is registered. An element
nested in anything but a package is left out. A reference means the one registered element whose
key or qualified name it is.
-/
namespace ClassScribe

inductive BuildError where
  | duplicateId (id : String)
  | unknownReference (kind : RelationshipKind) (reference : String)
  | ambiguousReference (kind : RelationshipKind) (reference : String)
  deriving DecidableEq, Repr

def BuildError.message : BuildError → String
  | .duplicateId id => "duplicate element id: " ++ id
  | .unknownReference kind reference =>
    kind.name ++ " refers to unknown element \x60" ++ reference ++ "\x60"
  | .ambiguousReference kind reference =>
    kind.name ++ " reference \x60" ++ reference ++
      "\x60 matches several elements; give them explicit ids"

/-- A registered element with what its registration needs. -/
structure Entry where
  explicitId : Option String
  qualified : String
  element : Element
  /-- Nested elements that are left out. -/
  ignored : Nat
  label : String
  deriving Repr

namespace Snapshot

def isPackageKind (kind : String) : Bool :=
  ["package", "model", "UMLPackage", "UMLModel"].contains kind

def isClassKind (kind : String) : Bool := ["class", "UMLClass"].contains kind

def isInterfaceKind (kind : String) : Bool := ["interface", "UMLInterface"].contains kind

def Parameter.resolved (p : Parameter) : ClassScribe.Parameter :=
  ⟨p.name, .ofMarker p.direction⟩

def Operation.resolved (o : Operation) : ClassScribe.Operation :=
  ⟨o.name, o.visibility, o.documentation, o.parameters.map Parameter.resolved⟩

namespace Element

def members (e : Element) : Members := ⟨e.attributes, e.operations.map Operation.resolved⟩

def resolvedKind (e : Element) (owned : List ElementId) : ElementKind :=
  if isPackageKind e.kind then .package owned
  else if isClassKind e.kind then .classOf e.members
  else if isInterfaceKind e.kind then .interfaceOf e.members
  else .other e.kind

def entry (e : Element) (parent id : ElementId) (qualified : String) (owned : List ElementId) :
    Entry where
  explicitId := e.id
  qualified := qualified
  element := {
    id := id, key := e.id.getD e.name, name := e.name, documentation := e.documentation,
    stereotype := e.stereotype, parent := some parent, kind := e.resolvedKind owned }
  ignored := if isPackageKind e.kind then 0 else e.ownedElements.length
  label := e.kind

end Element

mutual

/-- How many elements are registered for one and what it owns. -/
def Element.count : Element → Nat
  | ⟨kind, _, _, _, _, owned, _, _⟩ => 1 + if isPackageKind kind then countAll owned else 0

def countAll : List Element → Nat
  | [] => 0
  | e :: rest => e.count + countAll rest

end

/-- The numbers of siblings of which the first has number `next`. -/
def siblingIds (next : ElementId) : List Element → List ElementId
  | [] => []
  | e :: rest => next :: siblingIds (next + e.count) rest

mutual

/-- Register an element under the number `next`, then what it owns. -/
def Element.entries (parent next : ElementId) (qualifier : String) : Element → List Entry
  | ⟨kind, id, name, documentation, stereotype, owned, attributes, operations⟩ =>
    let e : Element := ⟨kind, id, name, documentation, stereotype, owned, attributes, operations⟩
    let qualified := qualifier ++ "." ++ name
    e.entry parent next qualified (siblingIds (next + 1) owned) ::
      if isPackageKind kind then entriesAll next (next + 1) qualified owned else []

def entriesAll (parent next : ElementId) (qualifier : String) : List Element → List Entry
  | [] => []
  | e :: rest =>
    e.entries parent next qualifier ++ entriesAll parent (next + e.count) qualifier rest

end

def Document.rootEntry (d : Document) : Entry where
  explicitId := d.id
  qualified := d.name
  element := {
    id := Model.root, key := d.id.getD d.name, name := d.name, documentation := d.documentation,
    stereotype := none, parent := none, kind := .package (siblingIds 1 d.ownedElements) }
  ignored := 0
  label := "package"

def Document.entries (d : Document) : List Entry :=
  d.rootEntry :: entriesAll Model.root 1 d.name d.ownedElements

end Snapshot

/-- Whether a reference can mean an entry. -/
def Entry.answers (e : Entry) (reference : String) : Bool :=
  e.element.key == reference || e.qualified == reference

/-- What is left out below an entry. -/
def Entry.note? (e : Entry) : Option Note :=
  if e.ignored = 0 then none
  else some (.warn ("ignoring " ++ toString e.ignored ++ " element(s) nested in " ++ e.label ++
    " \x60" ++ e.qualified ++ "\x60"))

namespace Model

/-- The entries in front of the first one whose explicit id came before, and that id. The list
`seen` holds the ids met so far. -/
def uniqueEntries (seen : List String) : List Entry → List Entry × Option String
  | [] => ([], none)
  | e :: rest =>
    match e.explicitId with
    | none => let (es, d) := uniqueEntries seen rest; (e :: es, d)
    | some id =>
      if seen.contains id then ([], some id)
      else let (es, d) := uniqueEntries (id :: seen) rest; (e :: es, d)

/-- The one element that a reference can mean. -/
def resolve (es : List Entry) (kind : RelationshipKind) (reference : String) :
    Except BuildError ElementId :=
  match es.filter (·.answers reference) with
  | [] => .error (.unknownReference kind reference)
  | [e] => .ok e.element.id
  | _ => .error (.ambiguousReference kind reference)

def resolveEnd (es : List Entry) (e : Snapshot.End) : Except BuildError AssociationEnd := do
  return ⟨← resolve es .association e.reference, e.navigable⟩

def resolveRelationship (es : List Entry) : Snapshot.Relationship → Except BuildError Relationship
  | .generalization source target => do
    let source ← resolve es .generalization source
    return .generalization source (← resolve es .generalization target)
  | .realization source target => do
    let source ← resolve es .realization source
    return .realization source (← resolve es .realization target)
  | .association name end1 end2 => do
    let end1 ← resolveEnd es end1
    return .association ⟨name, end1, ← resolveEnd es end2⟩

/-- Build the model of a snapshot. Repeated ids are found before any reference is resolved. -/
def build (d : Snapshot.Document) : Except BuildError Model :=
  match uniqueEntries [] d.entries with
  | (_, some id) => .error (.duplicateId id)
  | (es, none) => do
    let relationships ← d.relationships.mapM (resolveRelationship es)
    return ⟨(es.map (·.element)).toArray, relationships⟩

/-- The notes of a build, also of one that fails. -/
def buildNotes (d : Snapshot.Document) : List Note :=
  (uniqueEntries [] d.entries).1.filterMap Entry.note? ++
    match build d with
    | .error _ => []
    | .ok m => [.debug ("built model \x60" ++ d.name ++ "\x60 with " ++ toString m.elements.size ++
        " elements and " ++ toString m.relationships.length ++ " relationships")]

end Model
end ClassScribe
