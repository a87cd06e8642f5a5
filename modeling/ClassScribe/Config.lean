import ClassScribe.Host.Failure
import ClassScribe.Options
import ClassScribe.Yaml.Record

/-! # Project configuration

A project keeps its usual input, output, root and options in a file of a fixed name. An empty
file stands for the defaults, and a project without the file has no configuration.
-/
namespace ClassScribe

structure Config where
  input : String := "model.yaml"
  /-- The directory in which the folder of the root package is created. -/
  output : String := "generated"
  /-- Qualified name of the element to generate from. -/
  root : Option String := none
  options : Options := {}
  deriving DecidableEq, Repr

namespace Config

def fileName : String := ".rbgen.yaml"

inductive LoadError where
  | unreadable (f : Host.Failure)
  | invalid (f : Yaml.Fault)
  deriving Repr

def LoadError.message : LoadError → String
  | .unreadable f => "failed to read config " ++ fileName ++ ": " ++ f.message
  | .invalid f => withDetail ("failed to parse config " ++ fileName) f.detail?

def shape {V : Type} {M : Type → Type} [Monad M] (F : Format V M) (depth : Nat) :
    Shape V M Config where
  title := "configuration"
  blank := {}
  fields := [
    F.textField "input" .defaulted fun s c => { c with input := s },
    F.textField "output" .defaulted fun s c => { c with output := s },
    F.optionalField "root" .defaulted fun s c => { c with root := s },
    F.field "options" .defaulted (F.record depth (Options.shape F))
      fun o c => { c with options := o }]

def read (text : String) : Except Yaml.Fault Config :=
  let depth := Yaml.Reader.maxDepth
  Yaml.readText? (fun S => S.record depth (shape S.toFormat (depth - 1))) text

def load : Option (Except Host.Failure String) → Except LoadError (Option Config)
  | none => .ok none
  | some (.error f) => .error (.unreadable f)
  | some (.ok text) =>
    match read text with
    | .ok c => .ok (some c)
    | .error f => .error (.invalid f)

def defaultText : String :=
  "# rbgen configuration\n" ++
  "input: model.yaml       # model snapshot (YAML or JSON)\n" ++
  "output: generated       # directory the root package folder is created in\n" ++
  "# root: Shop.Billing    # qualified name of the element to generate from\n" ++
  "\n" ++
  "options:\n" ++
  "  use_tab: false\n" ++
  "  indent_spaces: 2\n" ++
  "  initialize_method: true        # def initialize(...) assigning every instance attribute\n" ++
  "  use_attribute_accessor: false  # attr_reader/attr_accessor instead of getter/setter methods\n" ++
  "  to_string_method: true         # placeholder def to_s\n" ++
  "  documentation: true            # model documentation as # comments\n"

end Config
end ClassScribe
