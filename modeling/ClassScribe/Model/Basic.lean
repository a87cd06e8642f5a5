import ClassScribe.Model.Element

/-! # Models

A model is its elements, number 0 being the root package, and its relationships. Parents have
smaller numbers than their children, so every way up ends.
-/
namespace ClassScribe

structure Model where
  elements : Array Element
  relationships : List Relationship
  deriving Repr

namespace Model

def root : ElementId := 0

variable (m : Model)

def ids : List ElementId := List.range m.elements.size

def element? (i : ElementId) : Option Element := m.elements[i]?

def name (i : ElementId) : String := (m.element? i).elim "" (·.name)

/-- The parent of an element; one that does not come before it is none. -/
def parent? (i : ElementId) : Option ElementId := ((m.element? i).bind (·.parent)).filter (· < i)

def children (i : ElementId) : List ElementId := (m.element? i).elim [] (·.kind.owned)

theorem parent?_lt {m : Model} {i p : ElementId} (h : m.parent? i = some p) : p < i := by
  simp only [parent?, Option.filter_eq_some_iff] at h
  exact of_decide_eq_true h.2

/-- All packages around an element, innermost first. -/
def lineage (i : ElementId) : List ElementId :=
  match _h : m.parent? i with
  | none => []
  | some p => p :: lineage p
termination_by i
decreasing_by exact parent?_lt _h

/-- Whether `i` is `root` or lies below it. -/
def isWithin (i root : ElementId) : Bool := (i :: m.lineage i).contains root

/-- The packages around `i` strictly below `root`, outermost first. There are none when `i` is not
below `root`. -/
def ancestors (i root : ElementId) : List ElementId :=
  if (m.lineage i).contains root then ((m.lineage i).takeWhile (· != root)).reverse else []

/-- The names from the outermost package down to `i`, joined by dots. -/
def qualifiedName (i : ElementId) : String :=
  ".".intercalate ((i :: m.lineage i).reverse.map m.name)

def find? (qualified : String) : Option ElementId :=
  m.ids.find? fun i => m.qualifiedName i == qualified

/-- The relationships at `i`, in the order of the snapshot. -/
def relationshipsOf (i : ElementId) : List Relationship := m.relationships.filter (·.touches i)

end Model
end ClassScribe
