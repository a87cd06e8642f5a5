import ClassScribe.Command.Run

/-! # The program on the system it runs on -/
namespace ClassScribe.Command
open Host

def errorNumber? : IO.Error → Option UInt32
  | .alreadyExists _ n _ | .interrupted _ n _ | .noFileOrDirectory _ n _ | .invalidArgument _ n _
  | .permissionDenied _ n _ | .resourceExhausted _ n _ | .inappropriateType _ n _
  | .noSuchThing _ n _ | .otherError n _ | .resourceBusy n _ | .resourceVanished n _
  | .unsupportedOperation n _ | .hardwareFault n _ | .unsatisfiedConstraints n _
  | .illegalOperation n _ | .protocolError n _ | .timeExpired n _ => some n
  | .unexpectedEof | .userError _ => none

/-- Some numbers come with a minus sign, in 32 bits. -/
def magnitudeOf (n : UInt32) : Nat :=
  if n.toNat < Nat.pow 2 31 then n.toNat else Nat.pow 2 32 - n.toNat

def failureOf (e : IO.Error) : Failure :=
  match (errorNumber? e).bind fun n => SystemError.ofNumber? (magnitudeOf n) with
  | some known => .system known
  | none => .other (toString e)

def attempt {α : Type} (act : IO α) : IO (Except Failure α) := do
  try return .ok (← act)
  catch e => return .error (failureOf e)

def isDirectory (p : Path) : IO Bool := do
  match ← attempt (IO.FS.realPath p.text) with
  | .ok place => place.isDir
  | .error _ => return false

/-- No path of the system can have a character with number 0. -/
def onPath {α : Type} (p : Path) (act : IO α) : IO (Except Failure α) :=
  if p.text.toList.contains (Char.ofNat 0) then return .error .unusablePath else attempt act

def readAll (p : Path) : IO (Except Failure String) := do
  match ← onPath p (IO.FS.readBinFile p.text) with
  | .error f => return .error f
  | .ok octets => return (String.fromUTF8? octets).elim (.error .notText) .ok

/-- A path in the form the system takes. -/
def located (text : String) := (IO.FS.DirEntry.mk text "").root

/-- Remove a directory with all it holds; a link is removed, and not what it leads to. A directory
that is gone with its contents, as `a/..` is without `a`, counts as removed. Only so many levels
are entered; the system has no longer paths. -/
def removeTree : (levels : Nat) → (text : String) → IO Unit
  | 0, text => IO.FS.removeDir text
  | levels + 1, text => do
    let place := located text
    if (← place.symlinkMetadata).type == .dir then
      for entry in ← place.readDir do removeTree levels entry.path.toString
      try IO.FS.removeDir place
      catch
        | .noFileOrDirectory _ _ _ => return ()
        | e => throw e
    else IO.FS.removeFile place

def perform : (r : Request) → IO r.Answer
  | .isDirectory p => isDirectory p
  | .exists p => return (← attempt (IO.FS.realPath p.text)).toBool
  | .createDirectory p => onPath p (IO.FS.createDir p.text)
  | .removeTree p => onPath p (removeTree 4096 p.text)
  | .writeText p content => onPath p (IO.FS.writeFile p.text content)
  | .readText p => readAll p
  | .print text => do (← IO.getStdout).putStr text
  | .printError text => do (← IO.getStderr).putStr text
  | .readLine => return (← attempt (do (← IO.getStdin).getLine)).toOption

def execute {α : Type} : Program α → IO α
  | .done a => return a
  | .note _ rest => execute rest
  | .call r next => do
    let a ← perform r
    execute (next a)

end ClassScribe.Command

def main (arguments : List String) : IO UInt32 := do
  return (← ClassScribe.Command.execute (ClassScribe.Command.run arguments)).code.toUInt32
