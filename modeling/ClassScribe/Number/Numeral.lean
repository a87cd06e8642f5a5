import ClassScribe.Number.Binary

/-! # Numerals

A whole number that fits 64 bits keeps its value; every other number is a fraction of 64 bits.
`Numeral.ofParts?` reads a literal that was taken apart already. Digits beyond what 64 bits hold
only shift the decimal point (in front of it) or are dropped (behind it).
-/
namespace ClassScribe.Number

inductive Numeral where
  | natural (n : Nat)
  | negative (n : Nat)
  | fraction (f : Fraction)
  deriving Repr, DecidableEq

def digitValue (c : Char) : Nat := c.toNat - '0'.toNat

/-- Digits in front of the point: what 64 bits hold, and how many digits follow. -/
def wholeDigits : List Char → Nat × Nat :=
  List.foldl (fun (sum, dropped) c =>
    let next := sum * 10 + digitValue c
    if 0 < dropped || Nat.pow 2 64 ≤ next then (sum, dropped + 1) else (next, 0)) (0, 0)

/-- Digits behind the point, added while 64 bits hold them, and how many were added. -/
def partDigits (sum taken : Nat) : List Char → Nat × Nat
  | [] => (sum, taken)
  | c :: rest =>
    let next := sum * 10 + digitValue c
    if Nat.pow 2 64 ≤ next then (sum, taken) else partDigits next (taken + 1) rest

def naturalOf (digits : List Char) : Nat :=
  digits.foldl (fun n c => n * 10 + digitValue c) 0

/-- The parts of a literal: `part` and `power` are absent when they are not written. -/
structure Literal where
  negative : Bool
  whole : List Char
  part : Option (List Char)
  power : Option (Bool × List Char)

def Literal.exponent (l : Literal) : Int :=
  match l.power with
  | none => 0
  | some (false, ds) => naturalOf ds
  | some (true, ds) => -(naturalOf ds)

/-- None when the magnitude is too large. -/
def Numeral.ofParts? (l : Literal) : Option Numeral :=
  let (sum, dropped) := wholeDigits l.whole
  let (digits, taken) := partDigits sum 0 (l.part.getD [])
  if l.part.isNone && l.power.isNone && dropped == 0 && !l.negative then some (.natural sum)
  else if l.part.isNone && l.power.isNone && dropped == 0 && 0 < sum && sum ≤ Nat.pow 2 63 then
    some (.negative sum)
  else
    (Magnitude.ofDecimal? digits (dropped - taken + l.exponent)).map fun m =>
      .fraction ⟨l.negative, m⟩

end ClassScribe.Number
