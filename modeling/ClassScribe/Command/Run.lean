import ClassScribe.Command.Arguments
import ClassScribe.Command.Error
import ClassScribe.Host.Memory
import ClassScribe.Model.Summary
import ClassScribe.Yaml.Print

/-! # Running commands

Each command as a program for an operating system. Sources and summaries go to the output, all
else that is told goes to the error stream.
-/
namespace ClassScribe.Command
open Host

/-- A snapshot is JSON only if the extension of its path says so. -/
def notationOf (p : Path) : Snapshot.Notation := if p.extension? = some "json" then .json else .yaml

def readModel (form : Snapshot.Notation) (text : String) : Except CommandError Model := do
  let d ← (Snapshot.Document.read form text).mapError .snapshot
  (Model.build d).mapError .model

def elementNamed (m : Model) (name : String) : Except CommandError ElementId :=
  match m.find? name with
  | some i => .ok i
  | none => .error (.noElement name)

/-- Without a name the root is that of the model. -/
def rootNamed (m : Model) (name : Option String) : Except CommandError ElementId :=
  name.elim (.ok Model.root) (elementNamed m)

def sourceOf (m : Model) (root : Option String) (name : String) (o : Options) :
    Except CommandError String := do
  let root ← rootNamed m root
  let i ← elementNamed m name
  if m.isWithin i root then
    match Source.render? m root o i with
    | some f => .ok f.content
    | none => .error (.noSource name)
  else .error (.outsideRoot name (m.qualifiedName root))

abbrev Action := ExceptT CommandError Program

namespace Action

def ofExcept {α : Type} (r : Except CommandError α) : Action α := ExceptT.mk (pure r)

def orFail {α : Type} (wrap : Failure → CommandError) (r : Except Failure α) : Action α :=
  ofExcept (r.mapError wrap)

def print (text : String) : Action Unit := Program.print text

def tell (line : String) : Action Unit := Program.printError (line ++ "\n")

def configPath : Path := ⟨Config.fileName⟩

def loadConfig : Action Config := do
  let present ← Program.exists? configPath
  let file ← if present then some <$> Program.readText configPath else pure none
  return (← ofExcept ((Config.load file).mapError .config)).getD {}

def loadModel (p : Path) : Action Model := do
  let text ← orFail (.unreadable p) (← Program.readText p)
  ofExcept (readModel (notationOf p) text)

/-- Generate in memory, where every overwrite is accepted, and show the files. -/
def generateDry (m : Model) (root : ElementId) (o : Options) (out : Path) : Action Unit := do
  let r := (ClassScribe.generate m root o out).run Memory.host (Memory.new out .accepted)
  let display (files : List Path) : Action Unit := do
    for p in files do
      if let some content := r.state.file? p then
        print ("==> " ++ p.text ++ " <==\n" ++ content ++ "\n\n")
    tell ("Dry run: " ++ toString files.length ++ " file(s) not written.")
  match r.result with
  | .failed e => throw (.generation e)
  | .completed r => display r.files
  | .cancelled r => display r.files

def performed (s : Script Call.Answer Outcome) (policy : Policy) : Program Outcome :=
  s.expand policy.perform

def generateFiles (m : Model) (root : ElementId) (o : Options) (out : Path) (policy : Policy) :
    Action Unit := do
  orFail (.outputDirectory out) (← Program.createPath (out.segments.length + 1) out)
  match ← performed (ClassScribe.generate m root o out) policy with
  | .failed e => throw (.generation e)
  | .completed r =>
    for p in r.files do tell ("  wrote " ++ p.text)
    tell ("Generated " ++ toString r.files.length ++ " files in " ++ out.text)
  | .cancelled r =>
    tell ("Generation cancelled: " ++ r.declined.elim "" (·.text) ++ " was left untouched.")
    if !r.files.isEmpty then
      tell ("  " ++ toString r.files.length ++ " file(s) were written before cancelling.")

def generate (g : Generation) : Action Unit := do
  let c ← loadConfig
  let out := g.output.getD ⟨c.output⟩
  let m ← loadModel (g.input.getD ⟨c.input⟩)
  let root ← ofExcept (rootNamed m (g.root <|> c.root))
  let o := g.overrides.apply c.options
  tell ("Generating " ++ m.qualifiedName root ++ " → " ++ out.text)
  if g.dryRun then generateDry m root o out else generateFiles m root o out g.policy

def validate (input : Path) : Action Unit := do
  let m ← loadModel input
  let n := m.counts
  tell ("Valid model: " ++ m.name Model.root)
  tell ("  Packages: " ++ toString n.packages)
  tell ("  Classes: " ++ toString n.classes)
  tell ("  Interfaces: " ++ toString n.interfaces)
  if 0 < n.others then tell ("  Unsupported (skipped): " ++ toString n.others)
  tell ("  Relationships: " ++ toString m.relationships.length)
  tell "Validation successful."

def inspect (input : Path) (view : View) : Action Unit := do
  let m ← loadModel input
  match view with
  | .summary .yaml => print (Yaml.print m.summary)
  | .summary .json => print (m.summary.pretty ++ "\n")
  | .source name root =>
    let c ← loadConfig
    print ((← ofExcept (sourceOf m (root <|> c.root) name c.options)) ++ "\n")

def begin (force : Bool) : Action Unit := do
  if !force && (← Program.exists? configPath) then throw .configPresent
  orFail .configUnwritable (← Program.writeText configPath Config.defaultText)
  tell ("Created " ++ Config.fileName)

end Action

def action : Command → Action Unit
  | .version => Action.print "rbgen 0.4.0\n"
  | .generate g => Action.generate g
  | .validate input => Action.validate input
  | .inspect input view => Action.inspect input view
  | .begin force => Action.begin force

inductive Exit where
  | success
  | failure
  /-- The arguments could not be used. -/
  | misuse
  deriving DecidableEq, Repr

def Exit.code : Exit → UInt8
  | success => 0
  | failure => 1
  | misuse => 2

def run (arguments : List String) : Program Exit := do
  match ofArguments arguments with
  | none =>
    Program.printError "Error: unusable arguments\n"
    return .misuse
  | some command =>
    match ← command.action.run with
    | .ok () => return .success
    | .error e =>
      Program.printError e.report
      return .failure

end ClassScribe.Command
