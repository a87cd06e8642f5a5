import ClassScribe.Record.Datum
import ClassScribe.Yaml.Scalar

/-! # The core meanings of scalars

What a plain scalar means when nothing else says so: null, a flag, a number, or its text. A number
with leading zeros is a text. Whole numbers beyond 64 bits and within 128 have no value.
-/
namespace ClassScribe.Yaml.Core
open Number

def isNull (s : String) : Bool := ["null", "Null", "NULL", "~"].contains s

def flag? (s : String) : Option Bool :=
  if ["true", "True", "TRUE"].contains s then some true
  else if ["false", "False", "FALSE"].contains s then some false
  else none

/-- A number in digits of a radix up to sixteen; there is at least one digit. -/
def digits? (radix : Nat) : List Char → Option Nat
  | [] => none
  | cs => cs.foldlM (fun n c => do
      let d ← hexValue? c
      if d < radix then some (n * radix + d) else none) 0

def unsigned (cs : List Char) : List Char :=
  match cs with
  | '+' :: rest => rest
  | '-' :: rest => rest
  | _ => cs

/-- Zeros in front of further digits. -/
def isPadded (cs : List Char) : Bool :=
  match unsigned cs with
  | '0' :: c :: rest => (c :: rest).all Char.isDigit
  | _ => false

def whole? (cs : List Char) : Option Nat :=
  match cs with
  | '0' :: 'x' :: rest => digits? 16 rest
  | '0' :: 'o' :: rest => digits? 8 rest
  | '0' :: 'b' :: rest => digits? 2 rest
  | _ => if isPadded cs then none else digits? 10 cs

def natural? (cs : List Char) : Option Nat :=
  match cs with
  | '+' :: rest => whole? rest
  | _ => whole? cs

/-- The number `-n`. -/
def negative? (cs : List Char) : Option Nat :=
  match cs with
  | '-' :: rest => whole? rest
  | _ => none

def count? (s : String) : Option Nat := (natural? s.toList).filter (· < Nat.pow 2 64)

inductive Whole where
  | value (n : Numeral)
  /-- Within 128 bits, but not within 64. -/
  | wide
  /-- No whole number, or a larger one. -/
  | other

def wholeNumber (cs : List Char) : Whole :=
  match natural? cs, negative? cs with
  | some n, _ =>
    if n < Nat.pow 2 64 then .value (.natural n) else if n < Nat.pow 2 128 then .wide else .other
  | none, some n =>
    if n ≤ Nat.pow 2 63 then .value (.negative n) else if n ≤ Nat.pow 2 127 then .wide else .other
  | none, none => .other

/-- A decimal literal without a sign, with a digit in front of the point or behind it. -/
def decimal? (cs : List Char) : Option Literal := do
  let whole := cs.takeWhile Char.isDigit
  let rest := cs.dropWhile Char.isDigit
  let (part, rest) := match rest with
    | '.' :: rest => (rest.takeWhile Char.isDigit, rest.dropWhile Char.isDigit)
    | rest => ([], rest)
  if whole.isEmpty && part.isEmpty then none
  else match rest with
    | [] => some ⟨false, whole, some part, none⟩
    | c :: rest =>
      if c != 'e' && c != 'E' then none
      else
        let digits := unsigned rest
        if digits.isEmpty || !digits.all Char.isDigit then none
        else some ⟨false, whole, some part, some (rest.head? == some '-', digits)⟩

/-- The nearest magnitude to a literal; none when it is too large. -/
def magnitude? (l : Literal) : Option Magnitude :=
  let part := l.part.getD []
  let n := naturalOf (l.whole ++ part)
  let exponent := l.exponent - part.length
  let places := (Nat.toDigits 10 n).length + exponent
  if n = 0 || places < -400 then some .zero
  else if 400 < places then none
  else match exponent with
    | .ofNat e => Magnitude.nearest? (n * Nat.pow 10 e) 1
    | .negSucc e => Magnitude.nearest? n (Nat.pow 10 (e + 1))

def fraction? (cs : List Char) : Option Datum :=
  let negative := cs.head? == some '-'
  let body := String.ofList (unsigned cs)
  if [".inf", ".Inf", ".INF"].contains body then
    some (.nonfinite (if negative then "-inf" else "inf"))
  else if [".nan", ".NaN", ".NAN"].contains (String.ofList cs) then some (.nonfinite "NaN")
  else do return .number (.fraction ⟨negative, ← magnitude? (← decimal? (unsigned cs))⟩)

/-- The meaning of a plain scalar; none for a number without a value. -/
def datum? (s : String) : Option Datum :=
  if s.isEmpty || isNull s then some .null
  else match flag? s, wholeNumber s.toList with
    | some b, _ => some (.flag b)
    | none, .value n => some (.number n)
    | none, .wide => none
    | none, .other =>
      if isPadded s.toList then some (.text s) else some ((fraction? s.toList).getD (.text s))

def flagTag : Tag := .ofText "tag:yaml.org,2002:bool"
def wholeTag : Tag := .ofText "tag:yaml.org,2002:int"
def fractionTag : Tag := .ofText "tag:yaml.org,2002:float"
def nullTag : Tag := .ofText "tag:yaml.org,2002:null"

/-- The meaning of a scalar with a tag; none when it is not what the tag says. -/
def taggedDatum? (tag : Tag) (s : String) : Option Datum :=
  if tag = flagTag then (flag? s).map .flag
  else if tag = wholeTag then
    match wholeNumber s.toList with
    | .value n => some (.number n)
    | _ => none
  else if tag = fractionTag then fraction? s.toList
  else if tag = nullTag then if isNull s then some .null else none
  else some (.text s)

end ClassScribe.Yaml.Core
