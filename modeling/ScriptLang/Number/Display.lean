import ScriptLang.Number.Shortest

/-!
How numbers are written.

A binary64 number is written with the fewest digits that read back, positionally from `10 ^ -4` up
to, but not including, `10 ^ 16` and with an exponent of at least two digits outside that range. A
real number standing alone shows that it is no whole number: it keeps `.0`. The parts of a complex
number do not.
-/

namespace ScriptLang.Number

/-- The decisions of a number format. -/
structure Format where
  /-- The least decimal exponent that is written positionally. -/
  positionalFrom : Int
  /-- The least decimal exponent above those. -/
  positionalBelow : Int
  /-- The least number of digits of an exponent. -/
  exponentWidth : Nat
  /-- A whole number written positionally ends in `.0`. -/
  keepPoint : Bool

/-- Real numbers. -/
def Format.real : Format := ⟨-4, 16, 2, true⟩

/-- The parts of a complex number. -/
def Format.part : Format := { Format.real with keepPoint := false }

/-- Decimal digits of a natural, with zeros in front up to `width`. -/
def padded (width n : Nat) : String :=
  let ds := Nat.toDigits 10 n
  String.ofList (List.replicate (width - ds.length) '0' ++ ds)

/-- A decimal without a sign. -/
def Format.decimal (f : Format) (d : Decimal) : String :=
  let n := d.digits.length
  if f.positionalFrom ≤ d.exponent && d.exponent < f.positionalBelow then
    if d.exponent < 0 then
      "0." ++ String.ofList (List.replicate ((-d.exponent).toNat - 1) '0' ++ d.digits)
    else
      let whole := d.exponent.toNat + 1
      if n ≤ whole then
        String.ofList (d.digits ++ List.replicate (whole - n) '0') ++
          (if f.keepPoint then ".0" else "")
      else
        String.ofList (d.digits.take whole) ++ "." ++ String.ofList (d.digits.drop whole)
  else
    let point := if n ≤ 1 then "" else "." ++ String.ofList (d.digits.drop 1)
    String.ofList (d.digits.take 1) ++ point ++ "e" ++ (if d.exponent < 0 then "-" else "+") ++
      padded f.exponentWidth d.exponent.natAbs

/-- A number with its sign. -/
def Format.write (f : Format) (x : Float) : String :=
  match unpack x with
  | .nan => "nan"
  | .infinite negative => if negative then "-inf" else "inf"
  | .finite d =>
    (if d.negative then "-" else "") ++ f.decimal (shortest d.significand d.exponent)

/-- A real number. -/
def showReal (x : Float) : String :=
  Format.real.write x

/-- A number whose sign bit is clear. -/
def isPositive (x : Float) : Bool :=
  x.toBits < 0x8000000000000000

/-- A complex number: the imaginary part alone if the real part is positive zero, both parts in
parentheses otherwise. -/
def showComplex (re im : Float) : String :=
  let tail := Format.part.write im ++ "j"
  if re == 0.0 && isPositive re then tail
  else
    let sign := if tail.startsWith "-" then "" else "+"
    "(" ++ Format.part.write re ++ sign ++ tail ++ ")"

end ScriptLang.Number
