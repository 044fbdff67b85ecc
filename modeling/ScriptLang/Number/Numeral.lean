import ScriptLang.Number.Dyadic
import ScriptLang.Text.Blank
import ScriptLang.Text.Digit

/-!
Reading numerals.

Around a numeral there may be white space, and before its digits a sign. Digits may be of any
script, and a single underscore may stand between two of them. Whole numbers are digits, at most
4300 of them. Real numbers may have a point and an exponent, or be one of the words for infinity and
for what is not a number. A real numeral is rounded once, to the nearest binary64 number.
-/

namespace ScriptLang.Number

/-- Why a text is no numeral. -/
inductive NumeralError where
  | notWhole (text : String)
  | tooLong (digits : Nat)
  | notReal (text : String)
  deriving DecidableEq, Repr

/-- The longest whole numeral that is read. -/
def maxDigits : Nat := 4300

/-- The natural with the given decimal digits. -/
def ofDigits (ds : List Nat) : Nat :=
  ds.foldl (fun n d => n * 10 + d) 0

/-- A character as the grammar of numerals sees it: decimal digits of every script are equal, and so
is white space beyond ASCII; any other character beyond ASCII belongs to no numeral. -/
def plainChar (c : Char) : Char :=
  if c.toNat < 128 then c
  else if Text.isBlank c then ' '
  else
    match Text.decimalValue? c with
    | some d => Char.ofNat (d + '0'.toNat)
    | none => '?'

/-- White space that may stand around a numeral. -/
def isPadding (c : Char) : Bool :=
  let n := c.toNat
  (0x9 ≤ n && n ≤ 0xd) || n == 0x20

/-- Removes underscores, each of which must stand between two digits; `before` is the previous
character. -/
def dropUnderscores (before : Char) : List Char → Option (List Char)
  | [] => if before == '_' then none else some []
  | '_' :: cs => if before.isDigit then dropUnderscores '_' cs else none
  | c :: cs =>
    if before == '_' && !c.isDigit then none else (dropUnderscores c cs).map (c :: ·)

/-- Splits off a sign. -/
def splitSign : List Char → Bool × List Char
  | '-' :: cs => (true, cs)
  | '+' :: cs => (false, cs)
  | cs => (false, cs)

/-- The value of a run of ASCII digits. -/
def digitsValue (cs : List Char) : Nat :=
  ofDigits (cs.map fun c => c.toNat - '0'.toNat)

/-- A number with a sign. -/
def signed (negative : Bool) (n : Nat) : Int :=
  if negative then -(n : Int) else n

/-- A character of a run of digits. -/
def isRunChar (c : Char) : Bool := c.isDigit || c == '_'

/-- Reads a whole number. Misplaced underscores are refused first, then a numeral that is too long,
and last what follows it. -/
def readWhole (s : String) : Except NumeralError Int :=
  let parts := splitSign ((s.toList.map plainChar).dropWhile isPadding)
  match dropUnderscores ' ' (parts.2.takeWhile isRunChar) with
  | none => .error (.notWhole s)
  | some ds =>
    if maxDigits < ds.length then .error (.tooLong ds.length)
    else if ds.isEmpty || !(parts.2.dropWhile isRunChar).all isPadding then .error (.notWhole s)
    else .ok (signed parts.1 (digitsValue ds))

/-- Reads an exponent, which has at least one digit; no exponent counts as zero. -/
def readExponent? : List Char → Option Int
  | [] => some 0
  | c :: cs =>
    if c == 'e' || c == 'E' then
      let parts := splitSign cs
      if parts.2.isEmpty || !parts.2.all Char.isDigit then none
      else some (signed parts.1 (digitsValue parts.2))
    else none

/-- Reads an unsigned decimal with at least one digit before its exponent. -/
def readMagnitude? (negative : Bool) (cs : List Char) : Option Float :=
  let whole := cs.takeWhile Char.isDigit
  let rest := cs.dropWhile Char.isDigit
  let fraction := match rest with
    | '.' :: rest => rest.takeWhile Char.isDigit
    | _ => []
  let rest := match rest with
    | '.' :: rest => rest.dropWhile Char.isDigit
    | _ => rest
  if whole.isEmpty && fraction.isEmpty then none
  else
    (readExponent? rest).map fun e =>
      ofDecimal negative (digitsValue (whole ++ fraction)) (e - (fraction.length : Int))

/-- A text without the white space at its ends. -/
def unpad (cs : List Char) : List Char :=
  ((cs.dropWhile isPadding).reverse.dropWhile isPadding).reverse

/-- Reads a real number without white space and underscores. -/
def readPlain? (cs : List Char) : Option Float :=
  let parts := splitSign cs
  let word := String.ofList (parts.2.map Char.toLower)
  if word == "inf" || word == "infinity" then
    some (if parts.1 then -1.0 / 0.0 else 1.0 / 0.0)
  else if word == "nan" then some (0.0 / 0.0)
  else readMagnitude? parts.1 parts.2

/-- Reads a real number. -/
def readReal (s : String) : Except NumeralError Float :=
  match (dropUnderscores ' ' (unpad (s.toList.map plainChar))).bind readPlain? with
  | some x => .ok x
  | none => .error (.notReal s)

end ScriptLang.Number
