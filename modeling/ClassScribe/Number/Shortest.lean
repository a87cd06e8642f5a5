import ClassScribe.Number.Binary

/-! # The shortest decimal that reads back

Of the decimals that round to a magnitude the ones with the fewest digits are wanted, and of those
the nearest. On the grid of each length only the two neighbours of the value can qualify.
-/
namespace ClassScribe.Number

/-- The decimals that round to a magnitude, in units of `2 ^ (-1076)`. -/
structure Interval where
  low : Nat
  value : Nat
  high : Nat
  /-- The ends themselves round to the value. -/
  closed : Bool

def Magnitude.interval (x : Magnitude) : Interval :=
  let unit := Nat.pow 2 x.power
  let below := if x.mantissa = Nat.pow 2 52 && 0 < x.power then 1 else 2
  ⟨(4 * x.mantissa - below) * unit, 4 * x.mantissa * unit, (4 * x.mantissa + 2) * unit,
    x.mantissa % 2 == 0⟩

/-- `digits * 10 ^ exponent`. -/
structure Decimal where
  digits : Nat
  exponent : Int
  deriving Repr, DecidableEq

/-- A decimal and a bound, brought to a common denominator. -/
def Decimal.against (d : Decimal) (bound : Nat) : Nat × Nat :=
  match d.exponent with
  | .ofNat e => (d.digits * Nat.pow 10 e * Nat.pow 2 1076, bound)
  | .negSucc e => (d.digits * Nat.pow 2 1076, bound * Nat.pow 10 (e + 1))

def Interval.holds (i : Interval) (d : Decimal) : Bool :=
  let (a, low) := d.against i.low
  let (b, high) := d.against i.high
  if i.closed then low ≤ a && b ≤ high else low < a && b < high

def Interval.distance (i : Interval) (d : Decimal) : Nat :=
  let (a, v) := d.against i.value
  (a - v) + (v - a)

/-- The least `k` with a value below `10 ^ k`. -/
def Interval.places (i : Interval) : Int :=
  let below (k : Int) : Bool := let (a, v) := (Decimal.mk 1 k).against i.value; v < a
  (((List.range 640).map fun (n : Nat) => (n : Int) - 325).find? below).getD 310

/-- The better of the two neighbours of the value on the grid of `n` digits. -/
def Interval.onGrid? (i : Interval) (places : Int) (n : Nat) : Option Decimal :=
  let exponent := places - n
  let (a, v) := (Decimal.mk 1 exponent).against i.value
  let down : Decimal := ⟨v / a, exponent⟩
  let up : Decimal :=
    if v / a + 1 = Nat.pow 10 n then ⟨1, places⟩ else ⟨v / a + 1, exponent⟩
  match i.holds down, i.holds up with
  | true, true =>
    if i.distance down < i.distance up then some down
    else if i.distance up < i.distance down then some up
    else some (if down.digits % 2 == 0 then down else up)
  | true, false => some down
  | false, true => some up
  | false, false => none

def Magnitude.shortest (x : Magnitude) : Decimal :=
  if x.mantissa = 0 then ⟨0, 0⟩
  else
    let i := x.interval
    let places := i.places
    ((List.range 17).findSome? fun n => i.onGrid? places (n + 1)).getD ⟨0, 0⟩

/-- Positional from `10 ^ (-5)` up to `10 ^ 16` and with at least one decimal; else one digit in
front of the point and a signed power of ten. -/
def Decimal.text (d : Decimal) : String :=
  let ds := toString d.digits
  let count : Int := ds.length
  let places := count + d.exponent
  if d.digits = 0 then "0.0"
  else if -5 < places && places ≤ 0 then
    "0." ++ String.ofList (List.replicate (-places).toNat '0') ++ ds
  else if 0 < places && places ≤ 16 then
    if 0 ≤ d.exponent then
      ds ++ String.ofList (List.replicate d.exponent.toNat '0') ++ ".0"
    else
      String.ofList (ds.toList.take places.toNat) ++ "." ++
        String.ofList (ds.toList.drop places.toNat)
  else
    let tail := ds.toList.drop 1
    String.ofList (ds.toList.take 1) ++ (if tail.isEmpty then "" else "." ++ String.ofList tail) ++
      "e" ++ (if 0 ≤ places - 1 then "+" else "-") ++ toString (places - 1).natAbs

def Fraction.text (f : Fraction) : String :=
  (if f.negative then "-" else "") ++ f.magnitude.shortest.text

end ClassScribe.Number
