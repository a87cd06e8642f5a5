/-! # Model snapshots

The document a modelling tool exports: the root package with its tree of elements, and the
relationships between them by name. Nothing in it is resolved yet; visibilities, directions and
kinds are kept as they are written.
-/
namespace ClassScribe

/-- An attribute, the same in a snapshot and in a model. -/
structure Attribute where
  name : String
  visibility : String := "public"
  isStatic : Bool := false
  isReadOnly : Bool := false
  /-- Initial value, as it is written. -/
  defaultValue : String := ""
  documentation : String := ""
  deriving Repr, DecidableEq

namespace Snapshot

structure Parameter where
  name : String
  direction : String := "in"
  deriving Repr, DecidableEq

structure Operation where
  name : String
  visibility : String := "public"
  documentation : String := ""
  parameters : List Parameter := []
  deriving Repr, DecidableEq

/-- A package, class, interface or any other element. -/
structure Element where
  kind : String
  id : Option String := none
  name : String
  documentation : String := ""
  stereotype : Option String := none
  ownedElements : List Element := []
  attributes : List Attribute := []
  operations : List Operation := []
  deriving Repr

structure End where
  reference : String
  navigable : Bool := true
  deriving Repr, DecidableEq

inductive Relationship where
  | generalization (source target : String)
  | realization (source target : String)
  | association (name : String) (end1 end2 : End)
  deriving Repr, DecidableEq

/-- The document itself is the root package. -/
structure Document where
  id : Option String := none
  name : String
  documentation : String := ""
  ownedElements : List Element := []
  relationships : List Relationship := []
  deriving Repr

end Snapshot
end ClassScribe
