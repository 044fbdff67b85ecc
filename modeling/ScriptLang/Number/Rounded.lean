import ScriptLang.Number.Places

/-!
Magnitudes rounded to a count of digits.

A magnitude is written with a count of places after the point, with a count of digits and an
exponent, or in the one of these two ways that its exponent asks for. The exact value is rounded
once, to the nearest decimal and to the even one of two.
-/

namespace ScriptLang.Number

attribute [local instance (high)] instPowNat

/-- The decimal with `count` digits nearest to the magnitude of a number. -/
def Dyadic.significant (d : Dyadic) (count : Nat) : Decimal :=
  let r := d.ratio
  let num := r.1.natAbs
  if num == 0 then ⟨List.replicate count '0', 0⟩
  else
    let e := decimalExponent num r.2
    let k : Int := (count : Int) - 1 - e
    -- One digit more is there if rounding led to the next power of ten; it is a zero.
    let ds := Nat.toDigits 10 (roundDiv (num * 10 ^ k.toNat) (r.2 * 10 ^ (-k).toNat))
    ⟨ds.take count, e + ((ds.length : Int) - (count : Int))⟩

/-- Digits with a point before the last ones. Without any after it, the point stays if `keep`
says so. -/
def withPoint (keep : Bool) (whole fraction : List Char) : String :=
  String.ofList whole ++
    if fraction.isEmpty && !keep then "" else "." ++ String.ofList fraction

namespace Decimal

/-- One digit before the point, and an exponent. -/
def scientific (keep : Bool) (d : Decimal) : String :=
  withPoint keep (d.digits.take 1) (d.digits.drop 1) ++ "e" ++
    (if d.exponent < 0 then "-" else "+") ++ padded 2 d.exponent.natAbs

/-- All digits at their places. -/
def positional (keep : Bool) (d : Decimal) : String :=
  if d.exponent < 0 then
    withPoint keep ['0'] (List.replicate ((-d.exponent).toNat - 1) '0' ++ d.digits)
  else
    let whole := d.exponent.toNat + 1
    withPoint keep (d.digits.take whole ++ List.replicate (whole - d.digits.length) '0')
      (d.digits.drop whole)

end Decimal

/-- The ways to write a rounded magnitude. -/
inductive Style where
  | fixed
  | scientific
  /-- Scientific for exponents that are small or reach the count of digits, positional otherwise. -/
  | general
  deriving DecidableEq, Repr

/-- A rounded magnitude. Zeros at the end of a general one stay if `keep` says so. -/
def Style.magnitude (style : Style) (precision : Nat) (keep : Bool) (d : Dyadic) : String :=
  match style with
  | .fixed =>
    showUnits precision (d.units precision) ++ if precision == 0 && keep then "." else ""
  | .scientific => (d.significant (precision + 1)).scientific keep
  | .general =>
    let count := max 1 precision
    let rounded := d.significant count
    let shown :=
      if keep then rounded else { rounded with digits := dropTrailingZeros rounded.digits }
    if rounded.exponent < -4 || (count : Int) ≤ rounded.exponent then shown.scientific keep
    else shown.positional keep

/-- Whether a number is negative, and its rounded magnitude. What is not a number has no sign. -/
def Style.write (style : Style) (precision : Nat) (keep : Bool) (x : Float) : Bool × String :=
  match unpack x with
  | .nan => (false, "nan")
  | .infinite negative => (negative, "inf")
  | .finite d => (d.negative, style.magnitude precision keep d)

end ScriptLang.Number
