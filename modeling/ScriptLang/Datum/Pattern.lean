import ScriptLang.Fault
import ScriptLang.Number.Rounded

/-!
Patterns: texts with places for data.

A place starts with a percent sign and ends with a letter that says how its argument is written.
Between them may stand flags, a width, and a precision after a point; either may be an asterisk,
which takes it from the arguments. Two percent signs are one. Filling a pattern takes the arguments
in order and needs all of them.

Texts hold no surrogates; the replacement character stands for one that a number names.
-/

namespace ScriptLang.Pattern

attribute [local instance (high)] instPowNat

/-- A width or a precision. -/
inductive Size where
  /-- It is the next argument. -/
  | star
  /-- A run of digits, perhaps empty. -/
  | digits (ds : List Char)

/-- A place as it is written. -/
structure Place where
  flags : List Char
  width : Size
  precision : Option Size
  /-- The letter it ends with, unless the pattern ends before. -/
  letter : Option Char

def isFlag (c : Char) : Bool :=
  c == '-' || c == '+' || c == ' ' || c == '#' || c == '0'

/-- Reads a width or the digits of a precision. -/
def readSize : List Char → Size × List Char
  | '*' :: cs => (.star, cs)
  | cs => (.digits (cs.takeWhile Char.isDigit), cs.dropWhile Char.isDigit)

/-- Reads a precision, if a point is there. -/
def readPrecision : List Char → Option Size × List Char
  | '.' :: cs =>
    let size := readSize cs
    (some size.1, size.2)
  | cs => (none, cs)

/-- Leaves out a letter for the size of the argument. -/
def skipModifier : List Char → List Char
  | c :: cs => if c == 'h' || c == 'l' || c == 'L' then cs else c :: cs
  | [] => []

/-- Reads what follows the percent sign of a place. -/
def readPlace (cs : List Char) : Place × List Char :=
  let width := readSize (cs.dropWhile isFlag)
  let precision := readPrecision width.2
  let rest := skipModifier precision.2
  (⟨cs.takeWhile isFlag, width.1, precision.1, rest.head?⟩, rest.drop 1)

/-- Takes the next argument. -/
def next : List Datum → Except Fault (Datum × List Datum)
  | [] => .error (.type .fewArguments)
  | d :: ds => .ok (d, ds)

/-- The whole number that a width or a precision is, within the given bounds. -/
def starValue (low high : Int) (outside : OverflowFault) : Datum → Except Fault Int
  | .bool b => .ok (if b then 1 else 0)
  | .int i => if low ≤ i && i ≤ high then .ok i else .error (.overflow outside)
  | _ => .error (.type .star)

/-- The value of a run of digits, none counting as none. -/
def digitsSize (ds : List Char) (high : Nat) (large : ValueFault) : Except Fault (Option Nat) :=
  if ds.isEmpty then .ok none
  else
    let n := Number.digitsValue ds
    if n ≤ high then .ok (some n) else .error (.value large)

/-- How a place wants its argument written. -/
structure Layout where
  left : Bool
  plus : Bool
  blank : Bool
  alternate : Bool
  zeros : Bool
  width : Option Nat
  precision : Option Nat

/-- The greatest width and the greatest precision. -/
def maxWidth : Nat := 2 ^ (63 : Nat) - 1

def maxPrecision : Nat := 2 ^ (31 : Nat) - 1

/-- The width of a place. A negative argument asks for the left side. -/
def widthOf (size : Size) (args : List Datum) :
    Except Fault (Bool × Option Nat × List Datum) := do
  match size with
  | .star =>
    let (d, args) ← next args
    let i ← starValue (-(maxWidth : Int) - 1) maxWidth .starWidth d
    pure (i < 0, some i.natAbs, args)
  | .digits ds => pure (false, ← digitsSize ds maxWidth .width, args)

/-- The precision of a place. A negative argument counts as zero, and so does a point alone. -/
def precisionOf (size : Option Size) (args : List Datum) :
    Except Fault (Option Nat × List Datum) := do
  match size with
  | none => pure (none, args)
  | some .star =>
    let (d, args) ← next args
    let i ← starValue (-(maxPrecision : Int) - 1) maxPrecision .starPrecision d
    pure (some i.toNat, args)
  | some (.digits ds) => pure (some ((← digitsSize ds maxPrecision .precision).getD 0), args)

/-- The layout that a place asks for, and the arguments after those that it takes for that. -/
def layout (p : Place) (args : List Datum) : Except Fault (Layout × List Datum) := do
  let (turned, width, args) ← widthOf p.width args
  let (precision, args) ← precisionOf p.precision args
  let has (c : Char) : Bool := p.flags.contains c
  pure (⟨has '-' || turned, has '+', has ' ', has '#', has '0', width, precision⟩, args)

/-- What a place is filled with, before it is set to its width. -/
structure Filling where
  /-- A sign may stand before it, and zeros. -/
  numeric : Bool
  negative : Bool
  /-- The mark of a base. -/
  mark : String
  body : String

/-- A filling of characters. -/
def Filling.plain (s : String) : Filling := ⟨false, false, "", s⟩

/-- `n` copies of a character. -/
def copies (n : Nat) (c : Char) : String := String.ofList (List.replicate n c)

/-- A filling set to its width. -/
def Layout.set (l : Layout) (f : Filling) : String :=
  let sign :=
    if !f.numeric then ""
    else if f.negative then "-"
    else if l.plus then "+"
    else if l.blank then " "
    else ""
  let head := sign ++ f.mark
  let room := l.width.getD 0 - (head.length + f.body.length)
  if l.left then head ++ f.body ++ copies room ' '
  else if f.numeric && l.zeros then head ++ copies room '0' ++ f.body
  else copies room ' ' ++ head ++ f.body

/-- A datum as a text, unless it is a whole number with too many digits. -/
def checked (text : Datum → String) (d : Datum) : Except Fault String :=
  match d with
  | .int i =>
    if Number.maxDigits < (toString i.natAbs).length then .error (.value .digits)
    else .ok (text d)
  | _ => .ok (text d)

/-- A text with escapes for what is not ASCII. -/
def escaped (s : String) : String :=
  String.join (s.toList.map fun c =>
    if c.toNat < 0x80 then String.singleton c
    else if c.toNat ≤ 0xff then "\\x" ++ Text.hex 2 c.toNat
    else if c.toNat ≤ 0xffff then "\\u" ++ Text.hex 4 c.toNat
    else "\\U" ++ Text.hex 8 c.toNat)

/-- A text cut to the precision. -/
def Layout.cut (l : Layout) (s : String) : String :=
  match l.precision with
  | some n => String.ofList (s.toList.take n)
  | none => s

/-- A number without its fraction. -/
def truncated (letter : Char) : Datum → Except Fault Int
  | .bool b => .ok (if b then 1 else 0)
  | .int i => .ok i
  | .float x =>
    match Number.unpack x with
    | .nan => .error (.value .nan)
    | .infinite _ => .error (.overflow .infinity)
    | .finite d => .ok (d.ratio.1.tdiv d.ratio.2)
  | d => .error (.type (.realArgument letter d.kind))

/-- A whole number. -/
def whole (letter : Char) : Datum → Except Fault Int
  | .bool b => .ok (if b then 1 else 0)
  | .int i => .ok i
  | d => .error (.type (.wholeArgument letter d.kind))

/-- A real number. -/
def real : Datum → Except Fault Float
  | .bool b => .ok (if b then 1.0 else 0.0)
  | .int i =>
    match Number.ofInt? i with
    | some x => .ok x
    | none => .error (.overflow .conversion)
  | .float x => .ok x
  | d => .error (.type (.real d.kind))

/-- A whole number in a base, with zeros in front up to the precision. -/
def Layout.digits (l : Layout) (base : Nat) (mark : String) (i : Int) : Except Fault Filling :=
  if maxPrecision - 3 < l.precision.getD 0 then .error (.overflow .precision)
  else
    let ds := Nat.toDigits base i.natAbs
    if base == 10 && Number.maxDigits < ds.length then .error (.value .digits)
    else
      let zeros := copies (l.precision.getD 0 - ds.length) '0'
      .ok ⟨true, i < 0, if l.alternate then mark else "", zeros ++ String.ofList ds⟩

/-- A real number in a style. -/
def Layout.rounded (l : Layout) (style : Number.Style) (x : Float) : Filling :=
  let shown := style.write (l.precision.getD 6) l.alternate x
  ⟨true, shown.1, "", shown.2⟩

/-- A filling in capital letters. -/
def Filling.capital (f : Filling) : Filling :=
  { f with mark := f.mark.toUpper, body := f.body.toUpper }

/-- The character with a number. -/
def codePoint (i : Int) : Except Fault Char :=
  if 0 ≤ i && i < 0x110000 then
    .ok (if 0xd800 ≤ i && i ≤ 0xdfff then '�' else Char.ofNat i.toNat)
  else .error (.overflow .codePoint)

/-- A text of one character, or the number of one. -/
def character : Datum → Except Fault Char
  | .str s =>
    match s.toList with
    | [c] => .ok c
    | _ => .error (.type .character)
  | .bool b => codePoint (if b then 1 else 0)
  | .int i => codePoint i
  | _ => .error (.type .character)

/-- Writes an argument as a letter says; `index` is the place of the letter in the pattern. -/
def Layout.fill (l : Layout) (letter : Char) (index : Nat) (d : Datum) : Except Fault Filling := do
  match letter with
  | 's' => pure (.plain (l.cut (← checked Datum.plain d)))
  | 'r' => pure (.plain (l.cut (← checked Datum.shown d)))
  | 'a' => pure (.plain (l.cut (escaped (← checked Datum.shown d))))
  | 'd' | 'i' | 'u' => l.digits 10 "" (← truncated letter d)
  | 'o' => l.digits 8 "0o" (← whole letter d)
  | 'x' => l.digits 16 "0x" (← whole letter d)
  | 'X' => pure (← l.digits 16 "0x" (← whole letter d)).capital
  | 'e' => pure (l.rounded .scientific (← real d))
  | 'E' => pure (l.rounded .scientific (← real d)).capital
  | 'f' => pure (l.rounded .fixed (← real d))
  | 'F' => pure (l.rounded .fixed (← real d)).capital
  | 'g' => pure (l.rounded .general (← real d))
  | 'G' => pure (l.rounded .general (← real d)).capital
  | 'c' => pure (.plain (String.singleton (← character d)))
  | _ => .error (.value (.placeLetter letter index))

/-- Fills a place; `index` is the place of its letter in the pattern. -/
def fillPlace (p : Place) (index : Nat) (args : List Datum) :
    Except Fault (String × List Datum) := do
  let (l, args) ← layout p args
  match p.letter with
  | none => .error (.value .incompletePlace)
  | some letter =>
    let (d, args) ← next args
    pure (l.set (← l.fill letter index d), args)

/-- Fills the places of a pattern of `size` characters from the given ones on. The first `skip` of
them have been read with a place before. -/
def fillFrom (size : Nat) : Nat → List Char → List Datum → Except Fault String
  | _, [], args => if args.isEmpty then .ok "" else .error (.type .unusedArguments)
  | skip + 1, _ :: cs, args => fillFrom size skip cs args
  | 0, c :: cs, args =>
    if c == '%' then
      match cs.head? with
      | some '%' => (fillFrom size 1 cs args).map ("%" ++ ·)
      | some '(' => .error (.type .mapping)
      | _ =>
        let read := readPlace cs
        match fillPlace read.1 (size - read.2.length - 1) args with
        | .error f => .error f
        | .ok (text, args) => (fillFrom size (cs.length - read.2.length) cs args).map (text ++ ·)
    else (fillFrom size 0 cs args).map (String.singleton c ++ ·)

/-- The arguments that a datum stands for: the items of a sequence, or itself. -/
def arguments : Datum → List Datum
  | .tuple items => items
  | d => [d]

/-- Fills a pattern. -/
def apply (pattern : String) (d : Datum) : Except Fault String :=
  fillFrom pattern.toList.length 0 pattern.toList (arguments d)

end ScriptLang.Pattern
