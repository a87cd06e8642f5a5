import ClassScribe.Model.Facts

/-! # Paths between generated files

Every package below the root is a directory, so the way from one file to another goes up to the
last package they share, and down from there.
-/
namespace ClassScribe.Source

def extension : String := "rb"

def fileName (m : Model) (i : ElementId) : String := Text.stem (m.name i) ++ "." ++ extension

def sharedCount : List String → List String → Nat
  | a :: as, b :: bs => if a = b then sharedCount as bs + 1 else 0
  | _, _ => 0

/-- The steps from the directory with the file of `source` to the file of `target`. -/
def requireSteps (m : Model) (root source target : ElementId) : List String :=
  let here := m.segments source root
  let there := m.segments target root
  let shared := sharedCount here there
  List.replicate (here.length - shared) ".." ++ there.drop shared ++ [fileName m target]

def requirePath (m : Model) (root source target : ElementId) : String :=
  "/".intercalate (requireSteps m root source target)

def requireLine (m : Model) (root source target : ElementId) : String :=
  "require_relative '" ++ requirePath m root source target ++ "'"

end ClassScribe.Source
