import ScriptLang.Number.Display

/-!
Numbers with a fixed count of decimal places.

The exact value of a binary64 number is rounded to the nearest multiple of a power of ten, the even
one of two.
-/

namespace ScriptLang.Number

attribute [local instance (high)] instPowNat

/-- How many units of `10 ^ -places` are nearest to the magnitude of a number. -/
def Dyadic.units (d : Dyadic) (places : Nat) : Nat :=
  let r := d.ratio
  roundDiv (r.1.natAbs * 10 ^ places) r.2

/-- Units of `10 ^ -places`, written with a point before the last `places` digits. -/
def showUnits (places units : Nat) : String :=
  let whole := toString (units / 10 ^ places)
  if places == 0 then whole else whole ++ "." ++ padded places (units % 10 ^ places)

/-- A number with `places` digits after the point. A sign stays when the digits are all zero. -/
def showPlaces (places : Nat) (x : Float) : String :=
  match unpack x with
  | .nan => "nan"
  | .infinite negative => if negative then "-inf" else "inf"
  | .finite d => (if d.negative then "-" else "") ++ showUnits places (d.units places)

/-- The number nearest to `x` rounded to `places` decimal places. -/
def roundPlaces (places : Nat) (x : Float) : Float :=
  match unpack x with
  | .finite d => nearest d.negative (d.units places) (10 ^ places)
  | _ => x

end ScriptLang.Number
