import ClassScribe.Record.Shape

/-! # Reading records from buffered values

A buffered record may be a list, its fields in order. An unknown key is passed over. A list that
is longer than the record is an error, told according to where the list stands.
-/
namespace ClassScribe

abbrev Checked := Except ShapeError

namespace Datum

def asText : Datum → Checked String
  | .text s => .ok s
  | d => .error (.wrongType d.found .text)

def asFlag : Datum → Checked Bool
  | .flag b => .ok b
  | d => .error (.wrongType d.found .flag)

def asCount : Datum → Checked Nat
  | .number (.natural n) => .ok n
  | .number (.negative n) => .error (.negativeCount n)
  | d => .error (.wrongType d.found .count)

def asOptional {α : Type} (read : Datum → Checked α) : Datum → Checked (Option α)
  | .null => .ok none
  | d => some <$> read d

def asList {α : Type} (read : Datum → Checked α) : Datum → Checked (List α)
  | .list items => items.mapM read
  | d => .error (.wrongType d.found .list)

variable {ρ : Type}

def keyField? (s : Shape Datum Checked ρ) : Datum → Checked (Option (Field Datum Checked ρ))
  | .text name => .ok (s.field? name)
  | .number (.natural n) => .ok s.fields[n]?
  | d => .error (.wrongType d.found .field)

def readMembers (s : Shape Datum Checked ρ) (given : List String) (r : ρ) :
    List (Datum × Datum) → Checked ρ
  | [] =>
    match s.missing? given with
    | some name => .error (.missingField name)
    | none => .ok r
  | (key, v) :: rest => do
    match ← keyField? s key with
    | none => readMembers s given r rest
    | some f =>
      if given.contains f.name then .error (.duplicateField f.name)
      else readMembers s (f.name :: given) ((← f.read v) r) rest

/-- Items in field order; `done` fields are read already. -/
def readItems (title : String) (total done : Nat) (tooLong : Nat → Nat → ShapeError) (r : ρ) :
    List (Field Datum Checked ρ) → List Datum → Checked ρ
  | [], [] => .ok r
  | [], rest => .error (tooLong (done + rest.length) done)
  | f :: fields, [] =>
    if f.presence = .defaulted then readItems title total (done + 1) tooLong r fields []
    else .error (.tooShort done title total)
  | f :: fields, v :: rest => do
    readItems title total (done + 1) tooLong ((← f.read v) r) fields rest

def asRecord (tooLong : Nat → Nat → ShapeError) (s : Shape Datum Checked ρ) : Datum → Checked ρ
  | .record members => readMembers s [] s.blank members
  | .list items => readItems s.title s.fields.length 0 tooLong s.blank s.fields items
  | d => .error (.wrongType d.found (.titled s.title))

def format (tooLong : Nat → Nat → ShapeError) : Format Datum Checked where
  text := asText
  optional := asOptional
  flag := asFlag
  count := asCount
  list := fun _ => asList
  record := fun _ => asRecord tooLong

def inner : Format Datum Checked := format .tooLong

/-- A value that stands alone. -/
def alone : Format Datum Checked := format fun length _ => .surplus length

end Datum
end ClassScribe
