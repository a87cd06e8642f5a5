import ClassScribe.Yaml.Token

/-! # Nodes of a YAML document

A node is a scalar, a sequence, a mapping, or an alias for a marked node. Marks are numbers. A
number can be given twice; it then means the node that comes last in the text.
-/
namespace ClassScribe.Yaml

inductive Node where
  | scalar (mark : Option Nat) (tag : Option Tag) (style : Style) (text : String)
  | sequence (mark : Option Nat) (tag : Option Tag) (items : List Node)
  | mapping (mark : Option Nat) (tag : Option Tag) (members : List (Node × Node))
  | alias (mark : Nat)
  deriving Repr

namespace Node

def empty : Node := .scalar none none .plain ""

def mark? : Node → Option Nat
  | .scalar mark _ _ _ => mark
  | .sequence mark _ _ => mark
  | .mapping mark _ _ => mark
  | .alias _ => none

def own (v : Node) : List (Nat × Node) := v.mark?.toList.map fun n => (n, v)

mutual

/-- The marked nodes in the order of the text. -/
def marked : Node → List (Nat × Node)
  | .sequence mark tag items => own (.sequence mark tag items) ++ markedItems items
  | .mapping mark tag members => own (.mapping mark tag members) ++ markedMembers members
  | v => own v

def markedItems : List Node → List (Nat × Node)
  | [] => []
  | v :: rest => v.marked ++ markedItems rest

def markedMembers : List (Node × Node) → List (Nat × Node)
  | [] => []
  | (k, v) :: rest => k.marked ++ v.marked ++ markedMembers rest

end

mutual

/-- One for a scalar or an alias, and two more than its contents for a collection. -/
def weight : Node → Nat
  | .sequence _ _ items => 2 + weightItems items
  | .mapping _ _ members => 2 + weightMembers members
  | _ => 1

def weightItems : List Node → Nat
  | [] => 0
  | v :: rest => v.weight + weightItems rest

def weightMembers : List (Node × Node) → Nat
  | [] => 0
  | (k, v) :: rest => k.weight + v.weight + weightMembers rest

end
end Node

/-- A document, its marked nodes with the last ones first, and its weight. -/
structure Document where
  root : Node
  marked : List (Nat × Node)
  weight : Nat

def Document.ofRoot (root : Node) : Document := ⟨root, root.marked.reverse, root.weight⟩

end ClassScribe.Yaml
