import ClassScribe.Number.Numeral

/-! # Buffered values

A value that was read whole before its use is known. Keys of a record are values themselves: a
text names a field, and a natural number counts fields from zero.
-/
namespace ClassScribe
open Number

inductive Datum where
  | null
  | flag (b : Bool)
  | number (n : Numeral)
  /-- An infinity, or no number at all, by its name. -/
  | nonfinite (name : String)
  | text (s : String)
  | list (items : List Datum)
  | record (members : List (Datum × Datum))
  deriving Repr

end ClassScribe
