import ScriptLang.Number.Dyadic

/-!
Powers of binary64 and complex numbers.

The special cases of real powers are decided here: zero, infinite and undefined operands, the sign
of an odd power of a negative base, and overflow. A negative base with a fractional exponent has a
complex power.
-/

namespace ScriptLang.Number

/-- A complex number. -/
structure Pair where
  re : Float
  im : Float

/-- The result of a power of real numbers. -/
inductive PowerResult where
  | real (x : Float)
  | complex (z : Pair)
  /-- Zero with a negative exponent. -/
  | zeroBase
  | overflow
  /-- Overflow of a complex power. -/
  | complexOverflow

/-- Why a complex operation has no result. -/
inductive ComplexError where
  | divisionByZero
  | zeroBase
  | overflow
  deriving DecidableEq, Repr

/-- A whole number that is not divisible by two. Every number from `2 ^ 53` on is even. -/
def isOdd (x : Float) : Bool :=
  match toInt? x with
  | some i => i % 2 == 1
  | none => false

/-- A whole number. -/
def isWhole (x : Float) : Bool :=
  x == x.floor

/-- The sign bit is set. -/
def isNegative (x : Float) : Bool :=
  0x8000000000000000 ≤ x.toBits

/-- Zero with the sign of `x`. -/
def zeroLike (x : Float) : Float :=
  if isNegative x then -0.0 else 0.0

/-- `∞`. -/
def infinity : Float := 1.0 / 0.0

/-- The hypotenuse over legs of moderate size, `ay ≤ ax`: the root of the sum of squares with one
correction step. -/
def hypotKernel (ax ay : Float) : Float :=
  let h := Float.sqrt (ax * ax + ay * ay)
  let correction :=
    if h ≤ 2.0 * ay then
      let delta := h - ay
      ax * (2.0 * delta - ax) + (delta - 2.0 * (ax - ay)) * delta
    else
      let delta := h - ax
      2.0 * delta * (ax - 2.0 * ay) + ((4.0 * delta - ay) * ay + delta * delta)
  h - correction / (2.0 * h)

/-- The hypotenuse of a right triangle. Large and tiny legs are scaled first, and a leg below half
a unit in the last place of the other is only added. -/
def hypot (x y : Float) : Float :=
  if x.isInf || y.isInf then infinity
  else if x.isNaN || y.isNaN then 0.0 / 0.0
  else
    let ax := if x.abs < y.abs then y.abs else x.abs
    let ay := if x.abs < y.abs then x.abs else y.abs
    let scale := Float.scaleB 1.0 (-600)
    let eps := Float.scaleB 1.0 (-54)
    if Float.scaleB 1.0 511 < ax then
      if ay ≤ ax * eps then ax + ay else hypotKernel (ax * scale) (ay * scale) / scale
    else if ay < Float.scaleB 1.0 (-459) then
      if ax ≥ ay / eps then ax + ay else hypotKernel (ax / scale) (ay / scale) * scale
    else if ay ≤ ax * eps then ax + ay
    else hypotKernel ax ay

namespace Pair

def add (a b : Pair) : Pair := ⟨a.re + b.re, a.im + b.im⟩

def sub (a b : Pair) : Pair := ⟨a.re - b.re, a.im - b.im⟩

def mul (a b : Pair) : Pair := ⟨a.re * b.re - a.im * b.im, a.re * b.im + a.im * b.re⟩

/-- Division by the larger part of the divisor first, so that no intermediate square overflows. -/
def div (a b : Pair) : Except ComplexError Pair :=
  let absRe := if b.re < 0.0 then -b.re else b.re
  let absIm := if b.im < 0.0 then -b.im else b.im
  if absRe ≥ absIm then
    if absRe == 0.0 then .error .divisionByZero
    else
      let ratio := b.im / b.re
      let denom := b.re + b.im * ratio
      .ok ⟨(a.re + a.im * ratio) / denom, (a.im - a.re * ratio) / denom⟩
  else if absIm ≥ absRe then
    let ratio := b.re / b.im
    let denom := b.re * ratio + b.im
    .ok ⟨(a.re * ratio + a.im) / denom, (a.im * ratio - a.re) / denom⟩
  else .ok ⟨0.0 / 0.0, 0.0 / 0.0⟩

/-- The power with exponent `n`, by repeated squaring: `r` holds the factors taken so far and `p`
the current square; `fuel` bounds the number of squarings. -/
def powLoop : Nat → Nat → Pair → Pair → Pair
  | 0, _, r, _ => r
  | fuel + 1, n, r, p =>
    if n == 0 then r
    else powLoop fuel (n / 2) (if n % 2 == 1 then r.mul p else r) (p.mul p)

/-- The power with a natural exponent. -/
def powNat (a : Pair) (n : Nat) : Pair :=
  powLoop (n + 1) n ⟨1.0, 0.0⟩ a

/-- The distance from zero. -/
def abs (a : Pair) : Float :=
  hypot a.re a.im

/-- An infinite part of a power is an overflow. -/
def checked (a : Pair) : Except ComplexError Pair :=
  if a.re.isInf || a.im.isInf then .error .overflow else .ok a

/-- A power by polar coordinates. An infinite angle has no direction. -/
def powPolar (a b : Pair) : Except ComplexError Pair :=
  if b.re == 0.0 && b.im == 0.0 then .ok ⟨1.0, 0.0⟩
  else if a.re == 0.0 && a.im == 0.0 then
    if b.im != 0.0 || b.re < 0.0 then .error .zeroBase else .ok ⟨0.0, 0.0⟩
  else
    let radius := a.abs
    let angle := Float.atan2 a.im a.re
    let length := Float.pow radius b.re
    let phase := angle * b.re
    let length := if b.im == 0.0 then length else length / Float.exp (angle * b.im)
    let phase := if b.im == 0.0 then phase else phase + b.im * Float.log radius
    if phase.isInf then .error .zeroBase
    else checked ⟨length * Float.cos phase, length * Float.sin phase⟩

/-- The largest exponent for which a whole power is computed by multiplication. -/
def maxFactors : Nat := 100

/-- A power of complex numbers. -/
def pow (a b : Pair) : Except ComplexError Pair :=
  match toInt? b.re with
  | none => powPolar a b
  | some n =>
    if b.im == 0.0 && n.natAbs ≤ maxFactors then
      if 0 < n then checked (a.powNat n.natAbs)
      else
        match Pair.div ⟨1.0, 0.0⟩ (a.powNat n.natAbs) with
        | .ok z => checked z
        | .error _ => .error .zeroBase
    else powPolar a b

end Pair

/-- A power of a positive base other than one with a finite exponent other than zero. -/
def powPositive (negate : Bool) (x y : Float) : PowerResult :=
  let z := Float.pow x y
  if z.isInf then .overflow else .real (if negate then -z else z)

/-- A power of real numbers. -/
def powReal (x y : Float) : PowerResult :=
  if y == 0.0 then .real 1.0
  else if x.isNaN then .real x
  else if y.isNaN then .real (if x == 1.0 then 1.0 else y)
  else if y.isInf then
    let size := x.abs
    if size == 1.0 then .real 1.0
    else if (0.0 < y : Bool) == (1.0 < size : Bool) then .real infinity
    else .real 0.0
  else if x.isInf then
    if 0.0 < y then .real (if isOdd y then x else infinity)
    else .real (if isOdd y then zeroLike x else 0.0)
  else if x == 0.0 then
    if y < 0.0 then .zeroBase else .real (if isOdd y then x else 0.0)
  else if x < 0.0 then
    if isWhole y then
      if x == -1.0 then .real (if isOdd y then -1.0 else 1.0) else powPositive (isOdd y) (-x) y
    else
      match Pair.pow ⟨x, 0.0⟩ ⟨y, 0.0⟩ with
      | .ok z => .complex z
      | .error _ => .complexOverflow
  else if x == 1.0 then .real 1.0
  else powPositive false x y

end ScriptLang.Number
