import ClassScribe.Host.Call
import ClassScribe.Source.Render

/-! # Generating files

Packages become directories, and classes and interfaces become files in them. The elements are
taken depth first, so all children of a package are done before its next sibling. A directory that
is already there is cleared first, if that is confirmed; otherwise generation stops.
-/
namespace ClassScribe
open Host

inductive Task where
  | directory (path : Path)
  | file (element : ElementId) (path : Path) (content : String)
  /-- An element without a source. -/
  | skip (name label : String)

/-- What was done before generation ended. -/
structure Report where
  directories : List Path := []
  files : List Path := []
  /-- The directory that was not to be overwritten. -/
  declined : Option Path := none
  deriving Repr

inductive GenerateError where
  | createDirectory (path : Path) (f : Failure)
  | clearDirectory (path : Path) (f : Failure)
  | writeText (path : Path) (f : Failure)
  deriving Repr

namespace GenerateError

def path : GenerateError → Path
  | createDirectory p _ => p
  | clearDirectory p _ => p
  | writeText p _ => p

def failure : GenerateError → Failure
  | createDirectory _ f => f
  | clearDirectory _ f => f
  | writeText _ f => f

def message : GenerateError → String
  | createDirectory p f => "failed to create directory " ++ p.text ++ ": " ++ f.message
  | clearDirectory p f => "failed to clear directory " ++ p.text ++ ": " ++ f.message
  | writeText p f => "failed to write " ++ p.text ++ ": " ++ f.message

end GenerateError

inductive Outcome where
  | completed (r : Report)
  /-- An existing directory was not to be overwritten. -/
  | cancelled (r : Report)
  | failed (e : GenerateError)
  deriving Repr

namespace Generate

/-- The tasks for an element and all below it, placed in `dir`. The fuel bounds the depth. -/
def tasksAt (m : Model) (root : ElementId) (o : Options) : Nat → Path → ElementId → List Task
  | 0, _, _ => []
  | fuel + 1, dir, i =>
    match m.element? i with
    | none => []
    | some e =>
      match e.kind with
      | .package owned =>
        let inside := dir.join e.name
        .directory inside :: owned.flatMap (tasksAt m root o fuel inside)
      | .other label => [.skip e.name label]
      | _ =>
        (Source.render? m root o i).toList.map fun f => .file i (dir.join f.path) f.content

def tasks (m : Model) (root : ElementId) (o : Options) (base : Path) : List Task :=
  tasksAt m root o m.elements.size base root

def question (p : Path) : String :=
  "A folder named " ++ p.text ++ " already exists, do you want to overwrite?"

/-- Make a directory; `next` goes on when it was made. -/
def makeDirectory (p : Path) (next : Script Call.Answer Outcome) : Script Call.Answer Outcome :=
  .call (.createDirectory p) fun
    | .ok () => next
    | .error f => .done (.failed (.createDirectory p f))

/-- Clear a directory that is there, if that is confirmed. -/
def clearDirectory (p : Path) (r : Report) (next : Script Call.Answer Outcome) :
    Script Call.Answer Outcome :=
  .call (.confirm (question p)) fun
    | .declined =>
      .note (.warn ("overwrite of " ++ p.text ++ " declined; generation cancelled"))
        (.done (.cancelled { r with declined := some p }))
    | .accepted =>
      .note (.debug ("clearing " ++ p.text)) (.call (.deleteDirectory p) fun
        | .ok () => next
        | .error f => .done (.failed (.clearDirectory p f)))

def repeatNotes (m : Model) (r : Report) (i : ElementId) (p : Path) : List Note :=
  if r.files.any (·.same p) then
    [.warn (p.text ++ " was already generated in this run; \x60" ++ m.qualifiedName i ++
      "\x60 overwrites it")]
  else []

def perform (m : Model) (r : Report) : List Task → Script Call.Answer Outcome
  | [] =>
    .note (.info ("generated " ++ toString r.files.length ++ " file(s) in " ++
      toString r.directories.length ++ " new director(ies)")) (.done (.completed r))
  | .skip name label :: rest =>
    .note (.debug ("skipping \x60" ++ name ++ "\x60 (" ++ label ++ ")")) (perform m r rest)
  | .directory p :: rest =>
    let make := makeDirectory p (perform m { r with directories := r.directories ++ [p] } rest)
    .call (.directoryExists p) fun present => if present then clearDirectory p r make else make
  | .file i p content :: rest =>
    .notes (Source.renderNotes m i ++ repeatNotes m r i p)
      (.call (.writeText p content true) fun
        | .ok () =>
          .note (.debug ("wrote " ++ p.text)) (perform m { r with files := r.files ++ [p] } rest)
        | .error f => .done (.failed (.writeText p f)))

end Generate

/-- Generate an element and all below it under a directory. -/
def generate (m : Model) (root : ElementId) (o : Options) (base : Path) :
    Script Call.Answer Outcome :=
  .note (.info ("generating \x60" ++ m.qualifiedName root ++ "\x60 into " ++ base.text))
    (Generate.perform m {} (Generate.tasks m root o base))

end ClassScribe
