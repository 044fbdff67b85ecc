/-!
Binary64 numbers as exact fractions.

A finite binary64 number is an integer times a power of two. This module takes numbers apart into
that form and rounds an arbitrary fraction back to the nearest number, with ties to the even
significand. Reading numerals, converting whole numbers and dividing them are all this rounding.
-/

namespace ScriptLang.Number

-- The powers of the core library, also where others are known.
attribute [local instance (high)] instPowNat

/-- The number `± significand * 2 ^ exponent`. -/
structure Dyadic where
  negative : Bool
  significand : Nat
  exponent : Int
  deriving DecidableEq, Repr

/-- A binary64 number taken apart. -/
inductive Unpacked where
  | finite (value : Dyadic)
  | infinite (negative : Bool)
  | nan
  deriving DecidableEq, Repr

/-- The number of bits of the fraction field. -/
def fractionBits : Nat := 52

/-- The exponent of the last place of the smallest numbers. -/
def leastExponent : Int := -1074

/-- Takes a number apart by its bit fields. -/
def unpack (x : Float) : Unpacked :=
  let bits := x.toBits.toNat
  let negative := bits / 2 ^ (63 : Nat) == 1
  let field : Nat := bits / 2 ^ fractionBits % 2 ^ (11 : Nat)
  let fraction : Nat := bits % 2 ^ fractionBits
  if field == 2047 then if fraction == 0 then .infinite negative else .nan
  else if field == 0 then .finite ⟨negative, fraction, leastExponent⟩
  else .finite ⟨negative, fraction + 2 ^ fractionBits, (field : Int) - 1075⟩

/-- The integer nearest to `num / den`, the even one of two. -/
def roundDiv (num den : Nat) : Nat :=
  let q := num / den
  let twice := 2 * (num % den)
  if den < twice || (twice == den && q % 2 == 1) then q + 1 else q

/-- `num / (den * 2 ^ e)` as a fraction of naturals. -/
def scaleDown (num den : Nat) (e : Int) : Nat × Nat :=
  if 0 ≤ e then (num, den * 2 ^ e.toNat) else (num * 2 ^ (-e).toNat, den)

/-- The magnitude bits of the number nearest to `num / den`; past the largest number, those of
infinity. -/
def nearestBits (num den : Nat) : Nat :=
  if num == 0 then 0
  else
    let e₀ : Int := (num.log2 : Int) - (den.log2 : Int) - 53
    let s := scaleDown num den e₀
    let e₁ := if s.1 / s.2 < 2 ^ (53 : Nat) then e₀ else e₀ + 1
    let e := max e₁ leastExponent
    let t := scaleDown num den e
    let bits := (e - leastExponent).toNat * 2 ^ fractionBits + roundDiv t.1 t.2
    min bits (2047 * 2 ^ fractionBits)

/-- The number nearest to `± num / den`. -/
def nearest (negative : Bool) (num den : Nat) : Float :=
  Float.ofBits (UInt64.ofNat (nearestBits num den + if negative then 2 ^ (63 : Nat) else 0))

/-- The number nearest to `± digits * 10 ^ exponent`. Magnitudes far outside the range are decided
by their exponent alone. -/
def ofDecimal (negative : Bool) (digits : Nat) (exponent : Int) : Float :=
  if digits == 0 then nearest negative 0 1
  else if 400 < exponent then nearest negative (10 ^ (400 : Nat)) 1
  else if exponent + (digits.log2 / 3 : Nat) < -400 then nearest negative 0 1
  else if 0 ≤ exponent then nearest negative (digits * 10 ^ exponent.toNat) 1
  else nearest negative digits (10 ^ (-exponent).toNat)

/-- The number nearest to a whole number, unless that is past the largest number. -/
def ofInt? (i : Int) : Option Float :=
  let x := nearest (i < 0) i.natAbs 1
  if x.isInf then none else some x

/-- The number nearest to a quotient of whole numbers, unless that is past the largest number. -/
def ofRatio? (a b : Int) : Option Float :=
  let x := nearest ((a < 0) != (b < 0)) a.natAbs b.natAbs
  if x.isInf then none else some x

namespace Dyadic

/-- The value as a fraction of integers with a positive denominator. -/
def ratio (d : Dyadic) : Int × Nat :=
  let m : Int := if d.negative then -(d.significand : Int) else d.significand
  if 0 ≤ d.exponent then (m * 2 ^ d.exponent.toNat, 1) else (m, 2 ^ (-d.exponent).toNat)

/-- The value, if it is whole. -/
def toInt? (d : Dyadic) : Option Int :=
  let r := d.ratio
  if r.1 % (r.2 : Int) == 0 then some (r.1 / (r.2 : Int)) else none

end Dyadic

/-- The value of a number, if it is finite and whole. -/
def toInt? (x : Float) : Option Int :=
  match unpack x with
  | .finite d => d.toInt?
  | _ => none

/-- Compares a whole number with a binary64 number exactly; there is no order with NaN. -/
def compareInt (i : Int) (x : Float) : Option Ordering :=
  match unpack x with
  | .nan => none
  | .infinite negative => some (if negative then .gt else .lt)
  | .finite d =>
    let r := d.ratio
    some (compare (i * (r.2 : Int)) r.1)

/-- The remainder of a division truncated toward zero, exact and with the sign of `x`; NaN if `x`
is infinite or `y` is zero. -/
def truncatedRemainder (x y : Float) : Float :=
  match unpack x, unpack y with
  | .finite a, .finite b =>
    if b.significand == 0 then 0.0 / 0.0
    else
      let e := min a.exponent b.exponent
      let m := a.significand * 2 ^ (a.exponent - e).toNat
      let n := b.significand * 2 ^ (b.exponent - e).toNat
      let t := scaleDown (m % n) 1 (-e)
      nearest a.negative t.1 t.2
  | .finite _, .infinite _ => x
  | _, _ => 0.0 / 0.0

end ScriptLang.Number
