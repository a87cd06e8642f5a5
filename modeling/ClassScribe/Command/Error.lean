import ClassScribe.Config
import ClassScribe.Generate
import ClassScribe.Model.Build
import ClassScribe.Snapshot.Read

/-! # Failing commands

Why a command fails, how that is told, and what caused it.
-/
namespace ClassScribe.Command
open Host

inductive CommandError where
  | config (e : Config.LoadError)
  | unreadable (path : Path) (f : Failure)
  | snapshot (e : Snapshot.ReadError)
  | model (e : BuildError)
  | noElement (name : String)
  | outsideRoot (name root : String)
  | noSource (name : String)
  | outputDirectory (path : Path) (f : Failure)
  | generation (e : GenerateError)
  | configPresent
  | configUnwritable (f : Failure)
  deriving Repr

namespace CommandError

def message : CommandError → String
  | config e => e.message
  | unreadable p _ => "failed to read " ++ p.text
  | snapshot e => e.message
  | model e => e.message
  | noElement name => "no element named " ++ backquoted name ++ " in the model"
  | outsideRoot name root =>
    backquoted name ++ " is not inside the generation root " ++ backquoted root
  | noSource name => backquoted name ++ " is not a class or interface"
  | outputDirectory p _ => "failed to create output directory " ++ p.text
  | generation e => e.message
  | configPresent => Config.fileName ++ " already exists. Use --force to overwrite."
  | configUnwritable f => f.message

def cause? : CommandError → Option String
  | config (.unreadable f) => some f.message
  | config (.invalid f) => f.detail?
  | unreadable _ f => some f.message
  | snapshot e => e.detail?
  | outputDirectory _ f => some f.message
  | generation e => some e.failure.message
  | _ => none

def report (e : CommandError) : String :=
  let cause (message : String) : String :=
    let lines := (Text.splitLines message.toList).map fun line => "    " ++ String.ofList line
    "\nCaused by:\n" ++ "\n".intercalate lines ++ "\n"
  "Error: " ++ e.message ++ "\n" ++ (e.cause?.map cause).getD ""

end CommandError

end ClassScribe.Command
