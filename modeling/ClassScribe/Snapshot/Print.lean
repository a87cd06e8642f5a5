import ClassScribe.Json.Tree
import ClassScribe.Snapshot.Document

/-! # Writing snapshots

A snapshot as a JSON value. Absent ids and stereotypes, empty lists and most empty texts are left
out; visibilities, directions and flags are always written.
-/
namespace ClassScribe.Snapshot

def textMember (key : String) (s : String) : List (String × Json) :=
  if s.isEmpty then [] else [(key, .text s)]

def optionalMember (key : String) (s : Option String) : List (String × Json) :=
  s.toList.map fun s => (key, .text s)

def listMember (key : String) (items : List Json) : List (String × Json) :=
  if items.isEmpty then [] else [(key, .list items)]

end Snapshot

open Snapshot in
def Attribute.toJson (a : Attribute) : Json :=
  .record ([("name", .text a.name), ("visibility", .text a.visibility),
      ("isStatic", .flag a.isStatic), ("isReadOnly", .flag a.isReadOnly)] ++
    textMember "defaultValue" a.defaultValue ++ textMember "documentation" a.documentation)

namespace Snapshot

def Parameter.toJson (p : Parameter) : Json :=
  .record [("name", .text p.name), ("direction", .text p.direction)]

def Operation.toJson (o : Operation) : Json :=
  .record ([("name", .text o.name), ("visibility", .text o.visibility)] ++
    textMember "documentation" o.documentation ++
    listMember "parameters" (o.parameters.map Parameter.toJson))

mutual

def Element.toJson : Element → Json
  | ⟨kind, id, name, documentation, stereotype, owned, attributes, operations⟩ =>
    .record ([("kind", .text kind)] ++ optionalMember "id" id ++ [("name", .text name)] ++
      textMember "documentation" documentation ++ optionalMember "stereotype" stereotype ++
      listMember "ownedElements" (elementsToJson owned) ++
      listMember "attributes" (attributes.map Attribute.toJson) ++
      listMember "operations" (operations.map Operation.toJson))

def elementsToJson : List Element → List Json
  | [] => []
  | e :: rest => e.toJson :: elementsToJson rest

end

def End.toJson (e : End) : Json :=
  .record [("reference", .text e.reference), ("navigable", .flag e.navigable)]

def Relationship.toJson : Relationship → Json
  | .generalization source target =>
    .record [("kind", .text "generalization"), ("source", .text source), ("target", .text target)]
  | .realization source target =>
    .record [("kind", .text "interfaceRealization"), ("source", .text source),
      ("target", .text target)]
  | .association name end1 end2 =>
    .record ([("kind", .text "association")] ++ textMember "name" name ++
      [("end1", end1.toJson), ("end2", end2.toJson)])

def Document.toJson (d : Document) : Json :=
  .record (optionalMember "id" d.id ++ [("name", .text d.name)] ++
    textMember "documentation" d.documentation ++
    listMember "ownedElements" (elementsToJson d.ownedElements) ++
    listMember "relationships" (d.relationships.map Relationship.toJson))

end Snapshot
end ClassScribe
