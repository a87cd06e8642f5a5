import ClassScribe.Json.Tree
import ClassScribe.Model.Basic

/-! # Summaries of a model

The elements below the root and the relationships between qualified names, as a value, and the
number of elements of each kind.
-/
namespace ClassScribe

structure ElementCounts where
  packages : Nat
  classes : Nat
  interfaces : Nat
  /-- Elements that no source is generated for. -/
  others : Nat
  deriving DecidableEq, Repr

/-- Annotations have a word of their own, though they are classes. -/
def Element.kindName (e : Element) : String := if e.isAnnotation then "annotation" else e.kind.label

namespace Model

variable (m : Model)

def counts : ElementCounts :=
  let count (p : ElementKind → Bool) : Nat := m.elements.toList.countP fun e => p e.kind
  { packages := count fun | .package _ => true | _ => false
    classes := count fun | .classOf _ => true | _ => false
    interfaces := count fun | .interfaceOf _ => true | _ => false
    others := count fun | .other _ => true | _ => false }

def elementSummary (e : Element) : Json :=
  let name := ("name", Json.text (m.qualifiedName e.id))
  let kind := ("kind", Json.text e.kindName)
  .record (match e.kind.members? with
    | none => [kind, name]
    | some c => [("attributes", .number c.attributes.length), kind, name,
        ("operations", .number c.operations.length)])

def relationshipSummary (r : Relationship) : Json :=
  let name := match r with
    | .association a => if a.name.isEmpty then [] else [("name", Json.text a.name)]
    | _ => []
  .record ([("from", .text (m.qualifiedName r.ends.1)), ("kind", .text r.kind.name)] ++ name ++
    [("to", .text (m.qualifiedName r.ends.2))])

/-- Members are in the order of their keys, throughout. -/
def summary : Json :=
  let below := m.elements.toList.filter fun e => e.id != root
  .record [("elements", .list (below.map m.elementSummary)), ("model", .text (m.name root)),
    ("relationships", .list (m.relationships.map m.relationshipSummary))]

end Model
end ClassScribe
