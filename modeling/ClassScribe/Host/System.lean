import ClassScribe.Host.Call
import ClassScribe.Text.Blank

/-! # A host on an operating system

What a program asks of the system it runs on, and how the calls of generation come down to that.
An overwrite is confirmed by policy, or by asking on the error stream.
-/
namespace ClassScribe.Host

inductive Request where
  | isDirectory (path : Path)
  | exists (path : Path)
  | createDirectory (path : Path)
  | removeTree (path : Path)
  | writeText (path : Path) (content : String)
  | readText (path : Path)
  | print (text : String)
  | printError (text : String)
  /-- A line of standard input with its end; none when it cannot be read. -/
  | readLine
  deriving Repr

abbrev Request.Answer : Request → Type
  | .isDirectory _ => Bool
  | .exists _ => Bool
  | .createDirectory _ => Except Failure Unit
  | .removeTree _ => Except Failure Unit
  | .writeText _ _ => Except Failure Unit
  | .readText _ => Except Failure String
  | .print _ => Unit
  | .printError _ => Unit
  | .readLine => Option String

abbrev Program := Script Request.Answer

namespace Program

def isDirectory (p : Path) : Program Bool := .ask (Request.isDirectory p)
def exists? (p : Path) : Program Bool := .ask (Request.exists p)
def createDirectory (p : Path) : Program (Except Failure Unit) := .ask (Request.createDirectory p)
def removeTree (p : Path) : Program (Except Failure Unit) := .ask (Request.removeTree p)
def writeText (p : Path) (content : String) : Program (Except Failure Unit) :=
  .ask (Request.writeText p content)
def readText (p : Path) : Program (Except Failure String) := .ask (Request.readText p)
def print (text : String) : Program Unit := .ask (Request.print text)
def printError (text : String) : Program Unit := .ask (Request.printError text)
def readLine : Program (Option String) := .ask Request.readLine

/-- Create a directory and all above it that are missing. The fuel bounds their number. -/
def createPath : Nat → Path → Program (Except Failure Unit)
  | 0, _ => return .error (.system .noEntry)
  | fuel + 1, p => do
    if p.text.isEmpty then return .ok ()
    match ← createDirectory p with
    | .ok () => return .ok ()
    | .error (.system .noEntry) =>
      match p.parent? with
      | none => return .error (.system .noEntry)
      | some q =>
        match ← createPath fuel q with
        | .error f => return .error f
        | .ok () =>
          match ← createDirectory p with
          | .ok () => return .ok ()
          | .error f => if ← isDirectory p then return .ok () else return .error f
    | .error f => if ← isDirectory p then return .ok () else return .error f

end Program

inductive Policy where
  | ask
  | always (reply : Confirmation)
  deriving DecidableEq, Repr

/-- Only `y` and `yes` accept. -/
def Confirmation.ofLine (line : Option String) : Confirmation :=
  match line with
  | none => .declined
  | some s => if ["y", "yes"].contains (Text.lowerAscii (Text.trim s)) then .accepted else .declined

def Policy.confirm (policy : Policy) (message : String) : Program Confirmation :=
  match policy with
  | .always reply => return reply
  | .ask => do
    Program.printError (message ++ " [y/N] ")
    return .ofLine (← Program.readLine)

/-- The answer to a call of generation. -/
def Policy.perform (policy : Policy) : (c : Call) → Program c.Answer
  | .directoryExists p => Program.isDirectory p
  | .createDirectory p => Program.createDirectory p
  | .deleteDirectory p => Program.removeTree p
  | .writeText p content overwrite => do
    if !overwrite && (← Program.exists? p) then return .error (.present p.text)
    else Program.writeText p content
  | .confirm message => policy.confirm message

end ClassScribe.Host
