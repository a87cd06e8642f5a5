/-! # Fractions of 64 bits

A finite magnitude is `mantissa * 2 ^ power / 2 ^ 1074`, with a mantissa below `2 ^ 53` and the
least power that allows it. All arithmetic is on natural numbers: an operation is its exact
quotient, rounded to the nearest magnitude, ties to the even mantissa.
-/
namespace ClassScribe.Number

structure Magnitude where
  mantissa : Nat
  power : Nat
  deriving Repr, DecidableEq

def Magnitude.zero : Magnitude := ⟨0, 0⟩

/-- The value as a multiple of `2 ^ (-1074)`. -/
def Magnitude.scaled (x : Magnitude) : Nat := x.mantissa * Nat.pow 2 x.power

/-- `n / d` rounded to a whole number, a tie to the even one. -/
def roundQuotient (n d : Nat) : Nat :=
  let q := n / d
  let r := n % d
  if 2 * r < d then q else if d < 2 * r then q + 1 else q + q % 2

/-- The magnitude nearest to `n / d`; none from where the finite ones end. -/
def Magnitude.nearest? (n d : Nat) : Option Magnitude :=
  let n := n * Nat.pow 2 1074
  let power := (n / d).log2 - 52
  let m := roundQuotient n (d * Nat.pow 2 power)
  let x : Magnitude := if m = Nat.pow 2 53 then ⟨Nat.pow 2 52, power + 1⟩ else ⟨m, power⟩
  if x.power ≤ 2045 then some x else none

def Magnitude.ofNat? (n : Nat) : Option Magnitude := nearest? n 1

def Magnitude.mul? (x y : Magnitude) : Option Magnitude :=
  nearest? (x.scaled * y.scaled) (Nat.pow 2 2148)

def Magnitude.div? (x y : Magnitude) : Option Magnitude := nearest? x.scaled y.scaled

/-- The magnitude nearest to `10 ^ k`; there is one up to `k = 308`. -/
def powerOfTen (k : Nat) : Magnitude := (Magnitude.ofNat? (Nat.pow 10 k)).getD .zero

/-- Divide by `10 ^ k`, in steps that have a power of ten. -/
def Magnitude.shrink (x : Magnitude) (k : Nat) : Magnitude :=
  if k ≤ 308 then (x.div? (powerOfTen k)).getD .zero
  else if x = .zero then .zero
  else ((x.div? (powerOfTen 308)).getD .zero).shrink (k - 308)
termination_by k

/-- What a decimal literal denotes: its digits are rounded first, then scaled by one rounded
power of ten. None when the result is too large. -/
def Magnitude.ofDecimal? (digits : Nat) (exponent : Int) : Option Magnitude :=
  match ofNat? digits, exponent with
  | none, _ => none
  | some x, .ofNat k =>
    if k ≤ 308 then x.mul? (powerOfTen k) else if x = .zero then some x else none
  | some x, .negSucc k => some (x.shrink (k + 1))

structure Fraction where
  negative : Bool
  magnitude : Magnitude
  deriving Repr, DecidableEq

end ClassScribe.Number
