import UtilitySheet.Text.Basic

/-!
# Numbers of a JSON text

A number is kept as it is spelled, since what it may stand for depends on where it stands: a count
must be spelled as a plain natural number, a weight may be any number. The floating-point value is
found by a fixed rule: as many leading digits as fit into 64 bits, scaled by a power of ten in
floating-point arithmetic. It is not always the nearest value, but every reader that follows the
rule finds the same one.
-/

namespace UtilitySheet.Json

/-- A number as it is spelled. -/
structure Number where
  negative : Bool
  /-- The digits before the point, at least one. -/
  whole : Text
  /-- The digits after the point; none without a point. -/
  fraction : Text
  /-- Whether the exponent is negative, and its digits. -/
  exponent : Option (Bool × Text)
  deriving DecidableEq, Repr

namespace Number

/-- The value of a decimal digit. -/
def digitValue (c : Char) : Nat := c.toNat - '0'.toNat

/-- The number that decimal digits spell. -/
def digitsValue (digits : Text) : Nat := digits.foldl (fun n c => 10 * n + digitValue c) 0

/-- The number, if it is spelled as a natural number without sign, point and exponent. -/
def natural? (n : Number) : Option Nat :=
  if n.negative || !n.fraction.isEmpty || n.exponent.isSome then none
  else some (digitsValue n.whole)

/-! ## The floating-point value -/

/-- Appends digits to a significand while it fits into 64 bits; answers also how many digits are
left over. -/
def absorb (significand : Nat) : Text → Nat × Nat
  | [] => (significand, 0)
  | c :: digits =>
    if significand * 10 + digitValue c < 2 ^ 64 then
      absorb (significand * 10 + digitValue c) digits
    else (significand, digits.length + 1)

/-- A power of ten as a floating-point number. -/
def powerOfTen (e : Nat) : Float := Float.ofScientific 1 false e

/-- `f` times ten to the `e`, `none` if that is infinite. Below `-308` the division is done in
steps; after three of them nothing but zero is left. -/
def scale : (steps : Nat) → (f : Float) → (e : Int) → Option Float
  | 0, f, _ => some f
  | steps + 1, f, e =>
    if e.natAbs ≤ 308 then
      if e ≥ 0 then
        if (f * powerOfTen e.natAbs).isInf then none else some (f * powerOfTen e.natAbs)
      else some (f / powerOfTen e.natAbs)
    else if f == 0 then some f
    else if e ≥ 0 then none
    else scale steps (f / powerOfTen 308) (e + 308)

/-- The largest exponent that is read as a number; beyond it only its sign counts. -/
def greatestExponent : Nat := 0x7fffffff

/-- The value without the sign. -/
def magnitude? (n : Number) : Option Float :=
  let (significand, dropped) := absorb 0 n.whole
  let (significand, ignored) := absorb significand n.fraction
  let start : Int := dropped - (n.fraction.length - ignored : Nat)
  match n.exponent with
  | none => scale 4 (Float.ofNat significand) start
  | some (negative, digits) =>
    if digitsValue digits > greatestExponent then
      if significand ≠ 0 ∧ !negative then none else some 0
    else
      let shift : Int := digitsValue digits
      scale 4 (Float.ofNat significand) (if negative then start - shift else start + shift)

/-- The value, `none` if it is out of range. Zero keeps its sign. -/
def toFloat? (n : Number) : Option Float :=
  n.magnitude?.map fun f => if n.negative then -f else f

end Number

end UtilitySheet.Json
