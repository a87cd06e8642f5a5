/-! # Paths

A path is kept as it is written. Its steps say where it leads: two paths with the same steps are
the same place, and places are ordered by their steps.
-/
namespace ClassScribe

structure Path where
  text : String
  deriving Repr

namespace Path

inductive Step where
  | root
  | here
  | up
  | name (s : String)
  deriving DecidableEq, Repr

namespace Step

def ofSegment (s : String) : Step := if s = "." then here else if s = ".." then up else name s

def rank : Step → Nat
  | root => 0
  | here => 1
  | up => 2
  | name _ => 3

/-- Names are ordered by their characters and come after all else. -/
def before : Step → Step → Bool
  | name a, name b => a < b
  | a, b => a.rank < b.rank

end Step

/-- What stands between the slashes. -/
def segments (p : Path) : List String := (p.text.toList.splitOn '/').map String.ofList

/-- An empty segment or a dot, which leads nowhere behind the first segment. -/
def isIdle (s : String) : Bool := s = "" || s = "."

def steps (p : Path) : List Step :=
  match p.segments with
  | [] => []
  | first :: rest =>
    (if first = "" then (if rest.isEmpty then [] else [Step.root]) else [Step.ofSegment first]) ++
      (rest.filter (!isIdle ·)).map Step.ofSegment

def same (p q : Path) : Bool := p.steps == q.steps

def stepsBefore : List Step → List Step → Bool
  | _, [] => false
  | [], _ :: _ => true
  | a :: as, b :: bs => if a = b then stepsBefore as bs else a.before b

def before (p q : Path) : Bool := stepsBefore p.steps q.steps

/-- `p` is `q` or lies below it. -/
def isWithin (p q : Path) : Bool := q.steps.isPrefixOf p.steps

def dropIdle (segments : List String) : List String :=
  (segments.reverse.dropWhile isIdle).reverse

/-- The path without its last step; none for the root and for the empty path. -/
def parent? (p : Path) : Option Path :=
  match p.segments with
  | [] => none
  | first :: rest =>
    match dropIdle rest with
    | [] => if first = "" then none else some ⟨""⟩
    | kept =>
      match dropIdle kept.dropLast with
      | [] => some ⟨if first = "" then "/" else first⟩
      | above => some ⟨"/".intercalate (first :: above)⟩

/-- Continue a path; a path from the root replaces it. -/
def join (p : Path) (s : String) : Path :=
  if s.toList.head? = some '/' then ⟨s⟩
  else if p.text.isEmpty || p.text.toList.getLast? = some '/' then ⟨p.text ++ s⟩
  else ⟨p.text ++ "/" ++ s⟩

/-- What follows the last dot of the last name, unless that dot begins the name. -/
def extension? (p : Path) : Option String :=
  match p.steps.getLast? with
  | some (.name s) =>
    let pieces := s.toList.splitOn '.'
    match pieces.reverse with
    | last :: before :: more =>
      if before.isEmpty && more.isEmpty then none else some (String.ofList last)
    | _ => none
  | _ => none

end Path
end ClassScribe
