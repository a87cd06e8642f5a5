import ClassScribe.Number.Shortest
import ClassScribe.Record.Datum
import ClassScribe.Text.Quoted

/-! # Values of the wrong shape

What can be wrong with a well-formed value that is read as a record, and how each case is told.
-/
namespace ClassScribe
open Number

inductive Found where
  | null
  | flag (b : Bool)
  | number (n : Numeral)
  | nonfinite (name : String)
  | text (s : String)
  | list
  | record
  deriving Repr

def Datum.found : Datum → Found
  | .null => .null
  | .flag b => .flag b
  | .number n => .number n
  | .nonfinite name => .nonfinite name
  | .text s => .text s
  | .list _ => .list
  | .record _ => .record

inductive Wanted where
  | text
  | flag
  | count
  | list
  | field
  | variant
  | titled (title : String)
  deriving Repr

inductive ShapeError where
  | wrongType (found : Found) (wanted : Wanted)
  /-- The number `-n` where a count is wanted. -/
  | negativeCount (n : Nat)
  | missingField (name : String)
  | duplicateField (name : String)
  | unknownVariant (name : String) (known : List String)
  /-- A record written as a list ends before field number `length`. -/
  | tooShort (length : Nat) (title : String) (fields : Nat)
  /-- A buffered list has more items than there are fields. -/
  | tooLong (length fields : Nat)
  /-- The same for a list that stands alone. -/
  | surplus (length : Nat)
  deriving Repr

def backquoted (s : String) : String := "`" ++ s ++ "`"

def Found.describe : Found → String
  | .null => "null"
  | .flag b => "boolean " ++ backquoted (if b then "true" else "false")
  | .number (.natural n) => "integer " ++ backquoted (toString n)
  | .number (.negative n) => "integer " ++ backquoted ("-" ++ toString n)
  | .number (.fraction f) => "floating point " ++ backquoted f.text
  | .nonfinite name => "floating point " ++ backquoted name
  | .text s => "string " ++ Text.quoted s
  | .list => "sequence"
  | .record => "map"

def Wanted.describe : Wanted → String
  | .text => "a string"
  | .flag => "a boolean"
  | .count => "usize"
  | .list => "a sequence"
  | .field => "field identifier"
  | .variant => "variant identifier"
  | .titled title => title

def elementCount (n : Nat) : String := toString n ++ (if n = 1 then " element" else " elements")

def ShapeError.message : ShapeError → String
  | .wrongType found wanted =>
    "invalid type: " ++ found.describe ++ ", expected " ++ wanted.describe
  | .negativeCount n =>
    "invalid value: integer " ++ backquoted ("-" ++ toString n) ++ ", expected usize"
  | .missingField name => "missing field " ++ backquoted name
  | .duplicateField name => "duplicate field " ++ backquoted name
  | .unknownVariant name known =>
    "unknown variant " ++ backquoted name ++ ", expected one of " ++
      ", ".intercalate (known.map backquoted)
  | .tooShort length title fields =>
    "invalid length " ++ toString length ++ ", expected " ++ title ++ " with " ++
      elementCount fields
  | .tooLong length fields =>
    "invalid length " ++ toString length ++ ", expected " ++ elementCount fields ++ " in sequence"
  | .surplus length => "invalid length " ++ toString length ++ ", expected fewer elements in array"

/-- A message with the detail behind it, if there is one. -/
def withDetail (message : String) (detail? : Option String) : String :=
  message ++ detail?.elim "" (": " ++ ·)

end ClassScribe
