import ClassScribe.Record.Buffered
import ClassScribe.Snapshot.Document

/-! # The shapes of a snapshot

Field names, order, defaults and nesting of the records a snapshot consists of, for every format
at once. A relationship is a union told apart by its kind.
-/
namespace ClassScribe.Snapshot
open ClassScribe

variable {V : Type} {M : Type → Type} [Monad M]

def attributeShape (F : Format V M) : Shape V M Attribute where
  title := "struct AttributeNode"
  blank := { name := "" }
  fields := [
    F.textField "name" .required fun s a => { a with name := s },
    F.textField "visibility" .defaulted fun s a => { a with visibility := s },
    F.flagField "isStatic" fun b a => { a with isStatic := b },
    F.flagField "isReadOnly" fun b a => { a with isReadOnly := b },
    F.textField "defaultValue" .defaulted fun s a => { a with defaultValue := s },
    F.textField "documentation" .defaulted fun s a => { a with documentation := s }]

def parameterShape (F : Format V M) : Shape V M Parameter where
  title := "struct ParameterNode"
  blank := { name := "" }
  fields := [
    F.textField "name" .required fun s p => { p with name := s },
    F.textField "direction" .defaulted fun s p => { p with direction := s }]

/-- The numbers are the levels that may still be entered below the record. -/
def operationShape (F : Format V M) (depth : Nat) : Shape V M Operation where
  title := "struct OperationNode"
  blank := { name := "" }
  fields := [
    F.textField "name" .required fun s o => { o with name := s },
    F.textField "visibility" .defaulted fun s o => { o with visibility := s },
    F.textField "documentation" .defaulted fun s o => { o with documentation := s },
    F.field "parameters" .defaulted (F.list depth (F.record (depth - 1) (parameterShape F)))
      fun ps o => { o with parameters := ps }]

/-- `owned` reads the elements of a package. -/
def elementShape (F : Format V M) (depth : Nat) (owned : V → M (List Element)) :
    Shape V M Element where
  title := "struct ElementNode"
  blank := { kind := "", name := "" }
  fields := [
    F.textField "kind" .required fun s e => { e with kind := s },
    F.optionalField "id" .optional fun s e => { e with id := s },
    F.textField "name" .required fun s e => { e with name := s },
    F.textField "documentation" .defaulted fun s e => { e with documentation := s },
    F.optionalField "stereotype" .optional fun s e => { e with stereotype := s },
    F.field "ownedElements" .defaulted owned fun es e => { e with ownedElements := es },
    F.field "attributes" .defaulted (F.list depth (F.record (depth - 1) (attributeShape F)))
      fun as e => { e with attributes := as },
    F.field "operations" .defaulted
      (F.list depth (F.record (depth - 1) (operationShape F (depth - 2))))
      fun os e => { e with operations := os }]

mutual

def readElement (F : Format V M) : Nat → V → M Element
  | 0 => F.record 0 (elementShape F 0 fun _ => pure [])
  | depth + 1 => F.record (depth + 1) (elementShape F depth (readElements F depth))

def readElements (F : Format V M) : Nat → V → M (List Element)
  | 0 => F.list 0 fun _ => pure { kind := "", name := "" }
  | depth + 1 => F.list (depth + 1) (readElement F depth)

end

def relationshipUnion : Union where
  title := "internally tagged enum RelationshipNode"
  tag := "kind"
  variants := ["generalization", "interfaceRealization", "association"]

def endShape (F : Format V M) : Shape V M End where
  title := "struct AssociationEndNode"
  blank := { reference := "" }
  fields := [
    F.textField "reference" .required fun s e => { e with reference := s },
    F.flagField "navigable" fun b e => { e with navigable := b }]

structure Directed where
  source : String
  target : String

def directedShape (F : Format V M) (variant : String) : Shape V M Directed where
  title := "struct variant RelationshipNode::" ++ variant
  blank := ⟨"", ""⟩
  fields := [
    F.textField "source" .required fun s d => { d with source := s },
    F.textField "target" .required fun s d => { d with target := s }]

structure Undirected where
  name : String
  end1 : End
  end2 : End

def undirectedShape (F : Format V M) : Shape V M Undirected where
  title := "struct variant RelationshipNode::Association"
  blank := ⟨"", ⟨"", true⟩, ⟨"", true⟩⟩
  fields := [
    F.textField "name" .defaulted fun s a => { a with name := s },
    F.field "end1" .required (F.record 0 (endShape F)) fun e a => { a with end1 := e },
    F.field "end2" .required (F.record 0 (endShape F)) fun e a => { a with end2 := e }]

/-- A relationship from its kind and its buffered members. -/
def Relationship.ofDatum (kind : String) (members : Datum) : Checked Relationship :=
  let inner := Datum.inner
  if kind = "generalization" then do
    let d ← inner.record 0 (directedShape inner "Generalization") members
    return .generalization d.source d.target
  else if kind = "interfaceRealization" then do
    let d ← inner.record 0 (directedShape inner "InterfaceRealization") members
    return .realization d.source d.target
  else do
    let a ← inner.record 0 (undirectedShape inner) members
    return .association a.name a.end1 a.end2

def readRelationship (S : Source V M) (depth : Nat) (v : V) : M Relationship := do
  let (kind, members) ← S.union depth relationshipUnion v
  match Relationship.ofDatum kind members with
  | .ok r => return r
  | .error e => S.refuse e

def documentShape (S : Source V M) (depth : Nat) : Shape V M Document where
  title := "struct ModelDocument"
  blank := { name := "" }
  fields := [
    S.optionalField "id" .optional fun s d => { d with id := s },
    S.textField "name" .required fun s d => { d with name := s },
    S.textField "documentation" .defaulted fun s d => { d with documentation := s },
    S.field "ownedElements" .defaulted (readElements S.toFormat depth)
      fun es d => { d with ownedElements := es },
    S.field "relationships" .defaulted (S.list depth (readRelationship S (depth - 1)))
      fun rs d => { d with relationships := rs }]

def readDocument (S : Source V M) (depth : Nat) : V → M Document :=
  S.record depth (documentShape S (depth - 1))

end ClassScribe.Snapshot
