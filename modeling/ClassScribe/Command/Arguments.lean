import ClassScribe.Command.Switch
import ClassScribe.Host.System
import ClassScribe.Options

/-! # The commands and their arguments

The first argument names the command, the others are its switches. What the line leaves open is
settled later by the configuration.
-/
namespace ClassScribe
namespace Command

structure Overrides where
  tabs : Bool := false
  indentWidth : Option Nat := none
  noInitializer : Bool := false
  declaredAccessors : Bool := false
  noTextMethod : Bool := false
  noDocumentation : Bool := false
  deriving DecidableEq, Repr

/-- A width also turns tabs off, even when both are given. -/
def Overrides.apply (v : Overrides) (o : Options) : Options where
  tabs := v.indentWidth.isNone && (v.tabs || o.tabs)
  indentWidth := v.indentWidth.getD o.indentWidth
  initializer := !v.noInitializer && o.initializer
  declaredAccessors := v.declaredAccessors || o.declaredAccessors
  textMethod := !v.noTextMethod && o.textMethod
  documentation := !v.noDocumentation && o.documentation

structure Generation where
  input : Option Path
  output : Option Path
  root : Option String
  policy : Host.Policy
  dryRun : Bool
  overrides : Overrides
  deriving Repr

inductive SummaryFormat where
  | yaml
  | json
  deriving DecidableEq, Repr

inductive View where
  | summary (format : SummaryFormat)
  /-- The source of one element, generated from a root. -/
  | source (name : String) (root : Option String)
  deriving Repr

end Command

inductive Command where
  | version
  | generate (g : Command.Generation)
  | validate (input : Path)
  | inspect (input : Path) (view : Command.View)
  | begin (force : Bool)
  deriving Repr

namespace Command

def inputSwitch : Switch := { name := "input", letter := some 'i' }

def generateSwitches : List Switch := [
  inputSwitch, { name := "output", letter := some 'o' }, { name := "root" },
  .flag "force", .flag "no-overwrite", .flag "dry-run", .flag "tab", { name := "indent" },
  .flag "no-initialize", .flag "accessors", .flag "no-to-s", .flag "no-doc"]

def inspectSwitches : List Switch :=
  [inputSwitch, { name := "format" }, { name := "render" }, { name := "root" }]

/-- A value that was given and read; `some none` when it was not given. -/
def Given.read {α : Type} (given : Given) (name : String) (read : String → Option α) :
    Option (Option α) :=
  match given.lookup name with
  | none => some none
  | some value => (read value).map some

def Given.has (given : Given) (name : String) : Bool := (given.lookup name).isSome

/-- A path has at least one character. -/
def readPath (s : String) : Option Path := if s.isEmpty then none else some ⟨s⟩

/-- Decimal digits, perhaps behind a plus, below `2 ^ 64`. -/
def readCount (s : String) : Option Nat :=
  let digits := match s.toList with
    | '+' :: rest => rest
    | cs => cs
  if digits.isEmpty || !digits.all Char.isDigit then none
  else
    let n := digits.foldl (fun n c => 10 * n + (c.toNat - '0'.toNat)) 0
    if n < Nat.pow 2 64 then some n else none

def readFormat (s : String) : Option SummaryFormat :=
  if s = "yaml" then some .yaml else if s = "json" then some .json else none

/-- Overwrites are confirmed by at most one of two flags. -/
def readPolicy (given : Given) : Option Host.Policy :=
  match given.has "force", given.has "no-overwrite" with
  | true, true => none
  | true, false => some (.always .accepted)
  | false, true => some (.always .declined)
  | false, false => some .ask

def readOverrides (given : Given) : Option Overrides := do
  return {
    tabs := given.has "tab"
    indentWidth := ← given.read "indent" readCount
    noInitializer := given.has "no-initialize"
    declaredAccessors := given.has "accessors"
    noTextMethod := given.has "no-to-s"
    noDocumentation := given.has "no-doc" }

def readGeneration (given : Given) : Option Generation := do
  return {
    input := ← given.read "input" readPath
    output := ← given.read "output" readPath
    root := given.lookup "root"
    policy := ← readPolicy given
    dryRun := given.has "dry-run"
    overrides := ← readOverrides given }

/-- A root has a use only for a source. -/
def readView (given : Given) : Option View := do
  let format ← given.read "format" readFormat
  match given.lookup "render", given.lookup "root" with
  | some name, root => return .source name root
  | none, none => return .summary (format.getD .yaml)
  | none, some _ => none

def readInput (given : Given) : Option Path := do readPath (← given.lookup "input")

/-- The command that a line stands for; none for a line that cannot be used. -/
def ofArguments : List String → Option Command
  | [] => none
  | word :: rest =>
    let given (table : List Switch) : Option Given := Switch.collect table [] rest
    if word = "--version" || "-V".toList.isPrefixOf word.toList then some .version
    else if word = "generate" then do
      return .generate (← readGeneration (← given generateSwitches))
    else if word = "validate" then do return .validate (← readInput (← given [inputSwitch]))
    else if word = "inspect" then do
      let given ← given inspectSwitches
      return .inspect (← readInput given) (← readView given)
    else if word = "init" then do return .begin ((← given [.flag "force"]).has "force")
    else none

end Command
end ClassScribe
