import ClassScribe.Host.Call

/-! # A host in memory

Directories and files are kept apart. A new entry needs its parent directory, and chosen paths can
be made to fail. Every prompt gets the same answer.
-/
namespace ClassScribe.Host

structure Memory where
  /-- The places that are directories. -/
  directories : List (List Path.Step)
  /-- In the order of their paths, each place once. -/
  files : List (Path × String) := []
  writes : List Path := []
  prompts : List String := []
  reply : Confirmation
  failing : List (List Path.Step) := []
  deriving Repr

namespace Memory

/-- A host in which only `base` exists. -/
def new (base : Path) (reply : Confirmation) : Memory :=
  { directories := [base.steps], reply := reply }

def isDirectory (m : Memory) (p : Path) : Bool := m.directories.contains p.steps

def file? (m : Memory) (p : Path) : Option String := (m.files.find? (·.1.same p)).map (·.2)

def addDirectory (m : Memory) (p : Path) : Memory :=
  if m.isDirectory p then m else { m with directories := m.directories ++ [p.steps] }

/-- A place that has a file keeps the path it was first written under. -/
def putFile (p : Path) (content : String) : List (Path × String) → List (Path × String)
  | [] => [(p, content)]
  | (q, old) :: rest =>
    if p.same q then (q, content) :: rest
    else if p.before q then (p, content) :: (q, old) :: rest
    else (q, old) :: putFile p content rest

def failOn (m : Memory) (p : Path) : Memory := { m with failing := p.steps :: m.failing }

/-- The directories above a path, nearest first. -/
def parents : Nat → Path → List Path
  | 0, _ => []
  | fuel + 1, p =>
    match p.parent? with
    | none => []
    | some q => if q.text.isEmpty then [] else q :: parents fuel q

def withFile (m : Memory) (p : Path) (content : String) : Memory :=
  let m := (parents p.segments.length p).foldl addDirectory m
  { m with files := putFile p content m.files }

def checkWritable (m : Memory) (p : Path) : Except Failure Unit :=
  if m.failing.contains p.steps then .error (.notWritable p.text) else .ok ()

def checkParent (m : Memory) (p : Path) : Except Failure Unit :=
  match p.parent? with
  | none => .ok ()
  | some q => if q.text.isEmpty || m.isDirectory q then .ok () else .error (.absent q.text)

def createDirectory (m : Memory) (p : Path) : Except Failure Memory := do
  m.checkWritable p
  m.checkParent p
  if m.isDirectory p then .error (.present p.text) else .ok (m.addDirectory p)

def deleteDirectory (m : Memory) (p : Path) : Except Failure Memory := do
  m.checkWritable p
  if m.isDirectory p then
    .ok { m with
      directories := m.directories.filter fun d => !p.steps.isPrefixOf d
      files := m.files.filter fun f => !f.1.isWithin p }
  else .error (.absent p.text)

def writeText (m : Memory) (p : Path) (content : String) (overwrite : Bool) :
    Except Failure Memory := do
  m.checkWritable p
  m.checkParent p
  if !overwrite && (m.file? p).isSome then .error (.present p.text)
  else .ok { m with files := putFile p content m.files, writes := m.writes ++ [p] }

/-- Go on with a change that was made, and stay where one failed. -/
def settle (m : Memory) : Except Failure Memory → Except Failure Unit × Memory
  | .ok changed => (.ok (), changed)
  | .error f => (.error f, m)

def answer (m : Memory) : (c : Call) → c.Answer × Memory
  | .directoryExists p => (m.isDirectory p, m)
  | .createDirectory p => m.settle (m.createDirectory p)
  | .deleteDirectory p => m.settle (m.deleteDirectory p)
  | .writeText p content overwrite => m.settle (m.writeText p content overwrite)
  | .confirm message => (m.reply, { m with prompts := m.prompts ++ [message] })

def host : Host Call.Answer Memory := ⟨answer⟩

def remarks : (c : Call) → c.Answer → List Note
  | .deleteDirectory p, .ok () => [.debug ("cleared " ++ p.text)]
  | _, _ => []

end Memory
end ClassScribe.Host
