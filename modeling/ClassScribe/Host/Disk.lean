import ClassScribe.Host.System

/-! # A file system in memory

Directories and regular files, looked up name by name as the usual systems do it. The working
directory is the root. With standard input and what was printed it makes a console, against which
programs can be run.
-/
namespace ClassScribe.Host

inductive Entry where
  | directory
  | file (content : String)
  deriving DecidableEq, Repr

structure Disk where
  /-- Every entry with the names that lead to it from the root. -/
  entries : List (List String × Entry) := []
  deriving Repr

namespace Disk

def at? (d : Disk) (place : List String) : Option Entry :=
  if place.isEmpty then some .directory else d.entries.lookup place

def put (d : Disk) (place : List String) (e : Entry) : Disk :=
  ⟨d.entries.filter (·.1 != place) ++ [(place, e)]⟩

def isBelow (place above : List String) : Bool :=
  above.isPrefixOf place && above.length < place.length

def empty (d : Disk) (place : List String) : Disk := ⟨d.entries.filter fun e => !isBelow e.1 place⟩

def remove (d : Disk) (place : List String) : Disk := ⟨d.entries.filter (·.1 != place)⟩

abbrev Found := Except Failure

def fail {α : Type} (e : SystemError) : Found α := .error (.system e)

def maxName : Nat := 255
def maxPath : Nat := 4095

def walk (d : Disk) (place : List String) : List String → Found (List String)
  | [] => .ok place
  | s :: rest =>
    if s = "." then walk d place rest
    else if s = ".." then walk d place.dropLast rest
    else if maxName < s.utf8ByteSize then fail .nameTooLong
    else match d.at? (place ++ [s]) with
      | none => fail .noEntry
      | some (.file _) => fail .notDirectory
      | some .directory => walk d (place ++ [s]) rest

/-- How a path ends, seen from the directory in front of its last segment. -/
inductive Ending where
  | root
  | here
  | up
  | name (s : String) (slash : Bool)

structure Target where
  directory : List String
  ending : Ending

def target (d : Disk) (p : Path) : Found Target :=
  if p.text.toList.contains (Char.ofNat 0) then .error .unusablePath
  else if p.text.isEmpty then fail .noEntry
  else if maxPath < p.text.utf8ByteSize then fail .nameTooLong
  else
    let names := p.segments.filter (!·.isEmpty)
    match names.getLast? with
    | none => .ok ⟨[], .root⟩
    | some last => do
      let directory ← d.walk [] names.dropLast
      if last = "." then return ⟨directory, .here⟩
      else if last = ".." then return ⟨directory, .up⟩
      else return ⟨directory, .name last (p.text.toList.getLast? == some '/')⟩

def find (d : Disk) (p : Path) : Found (List String × Entry) := do
  let t ← d.target p
  match t.ending with
  | .root => return ([], .directory)
  | .here => return (t.directory, .directory)
  | .up => return (t.directory.dropLast, .directory)
  | .name s slash =>
    let place := t.directory ++ [s]
    if maxName < s.utf8ByteSize then fail .nameTooLong
    else match d.at? place with
      | none => fail .noEntry
      | some .directory => return (place, .directory)
      | some (.file content) => if slash then fail .notDirectory else return (place, .file content)

def isDirectory (d : Disk) (p : Path) : Bool :=
  match d.find p with
  | .ok (_, .directory) => true
  | _ => false

def exists? (d : Disk) (p : Path) : Bool :=
  match d.find p with
  | .ok _ => true
  | .error _ => false

def readText (d : Disk) (p : Path) : Found String := do
  match ← d.find p with
  | (_, .directory) => fail .isDirectory
  | (_, .file content) => return content

def createDirectory (d : Disk) (p : Path) : Found Disk := do
  let t ← d.target p
  match t.ending with
  | .name s _ =>
    if maxName < s.utf8ByteSize then fail .nameTooLong
    else match d.at? (t.directory ++ [s]) with
      | some _ => fail .entryExists
      | none => return d.put (t.directory ++ [s]) .directory
  | _ => fail .entryExists

def writeText (d : Disk) (p : Path) (content : String) : Found Disk := do
  let t ← d.target p
  match t.ending with
  | .name s slash =>
    if slash then fail .isDirectory
    else if maxName < s.utf8ByteSize then fail .nameTooLong
    else match d.at? (t.directory ++ [s]) with
      | some .directory => fail .isDirectory
      | _ => return d.put (t.directory ++ [s]) (.file content)
  | _ => fail .isDirectory

def removeDirectory (d : Disk) (p : Path) : Found Disk := do
  let t ← d.target p
  match t.ending with
  | .root => fail .busy
  | .here => fail .invalidArgument
  | .up => fail .notEmpty
  | .name s _ =>
    let place := t.directory ++ [s]
    if maxName < s.utf8ByteSize then fail .nameTooLong
    else match d.at? place with
      | none => fail .noEntry
      | some (.file _) => fail .notDirectory
      | some .directory =>
        if d.entries.any fun e => isBelow e.1 place then fail .notEmpty else return d.remove place

/-- Empty a directory, then remove it if it is still there. What was removed stays removed when
the directory itself cannot be. -/
def removeTree (d : Disk) (p : Path) : Found Unit × Disk :=
  match d.find p with
  | .error f => (.error f, d)
  | .ok (_, .file _) => (fail .notDirectory, d)
  | .ok (place, .directory) =>
    let d := d.empty place
    match d.removeDirectory p with
    | .ok removed => (.ok (), removed)
    | .error (.system .noEntry) => (.ok (), d)
    | .error f => (.error f, d)

def withDirectory (d : Disk) (place : List String) : Disk :=
  (List.range (place.length + 1)).foldl (fun d n =>
    let above := place.take n
    if (d.at? above).isSome then d else d.put above .directory) d

def withFile (d : Disk) (place : List String) (content : String) : Disk :=
  (d.withDirectory place.dropLast).put place (.file content)

/-- All entries by their paths, in the order of the paths. -/
def listing (d : Disk) : List (String × Entry) :=
  (d.entries.map fun (place, e) => ("/".intercalate place, e)).mergeSort fun a b => !(b.1 < a.1)

end Disk

structure Console where
  disk : Disk
  input : String := ""
  output : String := ""
  errors : String := ""

namespace Console

def settle (s : Console) : Except Failure Disk → Except Failure Unit × Console
  | .ok d => (.ok (), { s with disk := d })
  | .error f => (.error f, s)

/-- A line with its end, and what follows. -/
def splitLine : List Char → List Char × List Char
  | [] => ([], [])
  | c :: rest =>
    if c == '\n' then ([c], rest)
    else let (line, rest) := splitLine rest; (c :: line, rest)

def answer (s : Console) : (r : Request) → r.Answer × Console
  | .isDirectory p => (s.disk.isDirectory p, s)
  | .exists p => (s.disk.exists? p, s)
  | .createDirectory p => s.settle (s.disk.createDirectory p)
  | .removeTree p => let (result, d) := s.disk.removeTree p; (result, { s with disk := d })
  | .writeText p content => s.settle (s.disk.writeText p content)
  | .readText p => (s.disk.readText p, s)
  | .print text => ((), { s with output := s.output ++ text })
  | .printError text => ((), { s with errors := s.errors ++ text })
  | .readLine =>
    let (line, rest) := splitLine s.input.toList
    (some (String.ofList line), { s with input := String.ofList rest })

def system : Host Request.Answer Console := ⟨answer⟩

def host (policy : Policy) : Host Call.Answer Console where
  answer := fun s c =>
    let r := (policy.perform c).run system s
    (r.result, r.state)

end Console
end ClassScribe.Host
