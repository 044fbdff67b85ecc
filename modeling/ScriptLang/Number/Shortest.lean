import ScriptLang.Number.Dyadic

/-!
The shortest decimal that reads back.

Of all decimals that round to a given number, the ones with the fewest digits are chosen, and of
these the nearest, the even one of two that are equally near. All arithmetic is on naturals: the
number and the ends of the interval that rounds to it are brought to one denominator.
-/

namespace ScriptLang.Number

attribute [local instance (high)] instPowNat

/-- The decimal `d.ddd… * 10 ^ exponent`, by its digits. -/
structure Decimal where
  digits : List Char
  exponent : Int
  deriving DecidableEq, Repr

/-- A positive number and the interval of reals that round to it, over the denominator `den`. -/
structure Interval where
  low : Nat
  value : Nat
  high : Nat
  den : Nat
  /-- The ends round to the number as well. -/
  closed : Bool

/-- The interval around `significand * 2 ^ exponent`. Below a power of two numbers lie twice as
close. -/
def Interval.around (significand : Nat) (exponent : Int) : Interval :=
  let scale := 2 ^ exponent.toNat
  let below := if significand == 2 ^ fractionBits && leastExponent < exponent then 1 else 2
  ⟨(4 * significand - below) * scale, 4 * significand * scale, (4 * significand + 2) * scale,
    4 * 2 ^ (-exponent).toNat, significand % 2 == 0⟩

/-- The decimal `d * 10 ^ k` rounds to the number. -/
def Interval.holds (i : Interval) (k : Int) (d : Nat) : Bool :=
  let up := 10 ^ k.toNat
  let down := 10 ^ (-k).toNat
  let x := d * up * i.den
  let low := i.low * down
  let high := i.high * down
  if i.closed then low ≤ x && x ≤ high else low < x && x < high

/-- The multiple of `10 ^ k` nearest to the number among its two neighbours that round to it. -/
def Interval.onGrid? (i : Interval) (k : Int) : Option Nat :=
  let num := i.value * 10 ^ (-k).toNat
  let den := i.den * 10 ^ k.toNat
  let d := num / den
  match i.holds k d, i.holds k (d + 1) with
  | true, true => some (roundDiv num den)
  | true, false => some d
  | false, true => some (d + 1)
  | false, false => none

/-- The greatest `e` with `10 ^ e ≤ num / den`, found next to an estimate from the binary
logarithms. -/
def decimalExponent (num den : Nat) : Int :=
  let reaches (e : Int) : Bool := den * 10 ^ e.toNat ≤ num * 10 ^ (-e).toNat
  let e := ((num.log2 : Int) - (den.log2 : Int) - 1) * 30103 / 100000
  if reaches (e + 1) then e + 1 else if reaches e then e else e - 1

/-- Tries grids with more and more digits, at most `fuel` of them. Seventeen digits always
suffice. -/
def Interval.search (i : Interval) (k : Int) : Nat → Nat × Int
  | 0 => (i.value * 10 ^ (-k).toNat / (i.den * 10 ^ k.toNat), k)
  | fuel + 1 =>
    match i.onGrid? k with
    | some d => (d, k)
    | none => i.search (k - 1) fuel

/-- A list of digits without the zeros at its end. -/
def dropTrailingZeros (ds : List Char) : List Char :=
  (ds.reverse.dropWhile (· == '0')).reverse

/-- The shortest decimal that reads back as `significand * 2 ^ exponent`. -/
def shortest (significand : Nat) (exponent : Int) : Decimal :=
  if significand == 0 then ⟨['0'], 0⟩
  else
    let i := Interval.around significand exponent
    let r := i.search (decimalExponent i.value i.den) 18
    let ds := Nat.toDigits 10 r.1
    ⟨dropTrailingZeros ds, r.2 + (ds.length : Int) - 1⟩

end ScriptLang.Number
