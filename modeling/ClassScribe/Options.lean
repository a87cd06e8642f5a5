import ClassScribe.Record.Buffered

/-! # Generation options

Every choice a run leaves to its user. A rendered file depends on nothing else besides the model.
-/
namespace ClassScribe

structure Options where
  tabs : Bool := false
  indentWidth : Nat := 2
  /-- Write a method `initialize` that takes every instance attribute. -/
  initializer : Bool := true
  /-- Declare accessors in a line of their own instead of writing methods. -/
  declaredAccessors : Bool := false
  textMethod : Bool := true
  /-- Show the documentation of the model in comments. -/
  documentation : Bool := true
  deriving DecidableEq, Repr

namespace Options

def indentUnit (o : Options) : String :=
  if o.tabs then "\t" else String.ofList (List.replicate o.indentWidth ' ')

def shape {V : Type} {M : Type → Type} [Monad M] (F : Format V M) : Shape V M Options where
  title := "struct GenerationOptions"
  blank := {}
  fields := [
    F.flagField "use_tab" fun b o => { o with tabs := b },
    F.countField "indent_spaces" fun n o => { o with indentWidth := n },
    F.flagField "initialize_method" fun b o => { o with initializer := b },
    F.flagField "use_attribute_accessor" fun b o => { o with declaredAccessors := b },
    F.flagField "to_string_method" fun b o => { o with textMethod := b },
    F.flagField "documentation" fun b o => { o with documentation := b }]

/-- Options from a value that stands alone. -/
def ofDatum (v : Datum) : Checked Options := Datum.alone.record 0 (shape Datum.alone) v

end Options
end ClassScribe
