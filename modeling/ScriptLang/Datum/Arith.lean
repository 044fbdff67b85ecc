import ScriptLang.Datum.Pattern
import ScriptLang.Number.Power

/-!
Arithmetic on data.

Two whole numbers give a whole number, except under division; otherwise both operands are brought to
the wider of their kinds, whole, real, complex. Texts and sequences can be joined and repeated, and
a text is a pattern that data fill. Every other combination is a fault that names the operation and
the kinds of its operands.
-/

namespace ScriptLang

-- The powers of the core library, also where others are known.
attribute [local instance (high)] instPowNat

namespace Num

/-- A whole number as a binary64 number. -/
def realOf (i : Int) : Except Fault Float :=
  match Number.ofInt? i with
  | some x => .ok x
  | none => .error (.overflow .conversion)

/-- Two numbers brought to one kind. -/
inductive Same where
  | whole (a b : Int)
  | real (a b : Float)
  | complex (a b : Number.Pair)

/-- A number as a complex number. -/
def pairOf : Num → Except Fault Number.Pair
  | .whole i => (realOf i).map (⟨·, 0.0⟩)
  | .real x => .ok ⟨x, 0.0⟩
  | .complex re im => .ok ⟨re, im⟩

/-- Brings two numbers to the wider of their kinds. -/
def unify : Num → Num → Except Fault Same
  | .whole a, .whole b => .ok (.whole a b)
  | .whole a, .real b => (realOf a).map (Same.real · b)
  | .real a, .whole b => (realOf b).map (Same.real a ·)
  | .real a, .real b => .ok (.real a b)
  | a, b =>
    match pairOf a, pairOf b with
    | .ok a, .ok b => .ok (.complex a b)
    | .error e, _ => .error e
    | _, .error e => .error e

/-- A complex number as a number. -/
def ofPair (z : Number.Pair) : Num := .complex z.re z.im

/-- The fault of a complex operation. -/
def complexFault : Number.ComplexError → Fault
  | .divisionByZero => .division .complex
  | .zeroBase => .division .complexZeroPower
  | .overflow => .overflow .complexPower

def add (a b : Num) : Except Fault Num :=
  (unify a b).map fun
    | .whole a b => .whole (a + b)
    | .real a b => .real (a + b)
    | .complex a b => ofPair (a.add b)

def sub (a b : Num) : Except Fault Num :=
  (unify a b).map fun
    | .whole a b => .whole (a - b)
    | .real a b => .real (a - b)
    | .complex a b => ofPair (a.sub b)

def mul (a b : Num) : Except Fault Num :=
  (unify a b).map fun
    | .whole a b => .whole (a * b)
    | .real a b => .real (a * b)
    | .complex a b => ofPair (a.mul b)

/-- Division; whole numbers have a real quotient. -/
def div (a b : Num) : Except Fault Num :=
  match unify a b with
  | .error e => .error e
  | .ok (.whole a b) =>
    if b == 0 then .error (.division .whole)
    else
      match Number.ofRatio? a b with
      | some x => .ok (.real x)
      | none => .error (.overflow .quotient)
  | .ok (.real a b) => if b == 0.0 then .error (.division .real) else .ok (.real (a / b))
  | .ok (.complex a b) =>
    match a.div b with
    | .ok z => .ok (ofPair z)
    | .error e => .error (complexFault e)

/-- The remainder with the sign of the divisor. -/
def realMod (a b : Float) : Float :=
  let r := Number.truncatedRemainder a b
  if r == 0.0 then Number.zeroLike b
  else if (b < 0.0 : Bool) != (r < 0.0 : Bool) then r + b
  else r

/-- The remainder with the sign of the divisor; complex numbers have none. -/
def mod (a b : Num) : Except Fault (Option Num) :=
  match a, b with
  | .complex _ _, _ => .ok none
  | _, .complex _ _ => .ok none
  | _, _ =>
    match unify a b with
    | .error e => .error e
    | .ok (.whole a b) =>
      if b == 0 then .error (.division .wholeModulo) else .ok (some (.whole (a.fmod b)))
    | .ok (.real a b) =>
      if b == 0.0 then .error (.division .realModulo) else .ok (some (.real (realMod a b)))
    | .ok (.complex _ _) => .ok none

/-- A power of real numbers as a number. -/
def realPow (a b : Float) : Except Fault Num :=
  match Number.powReal a b with
  | .real x => .ok (.real x)
  | .complex z => .ok (ofPair z)
  | .zeroBase => .error (.division .zeroPower)
  | .overflow => .error (.overflow .power)
  | .complexOverflow => .error (.overflow .complexPower)

/-- A power; a whole base with a negative whole exponent has a real power. -/
def pow (a b : Num) : Except Fault Num :=
  match unify a b with
  | .error e => .error e
  | .ok (.whole a b) =>
    if 0 ≤ b then .ok (.whole (a ^ b.toNat))
    else
      match realOf a, realOf b with
      | .ok x, .ok y => realPow x y
      | .error e, _ => .error e
      | _, .error e => .error e
  | .ok (.real a b) => realPow a b
  | .ok (.complex a b) =>
    match a.pow b with
    | .ok z => .ok (ofPair z)
    | .error e => .error (complexFault e)

def neg : Num → Num
  | .whole i => .whole (-i)
  | .real x => .real (-x)
  | .complex re im => .complex (-re) (-im)

end Num

namespace Datum

/-- The fault of an operation that is not defined on these kinds. -/
def mismatch (op : String) (a b : Datum) : Fault :=
  .type (.operands op a.kind b.kind)

/-- An operation on numbers, as one on data. -/
def onNumbers (op : String) (f : Num → Num → Except Fault Num) (a b : Datum) :
    Except Fault Datum :=
  match a.num?, b.num? with
  | some x, some y => (f x y).map Num.toDatum
  | _, _ => .error (mismatch op a b)

/-- Adds numbers and joins texts and sequences. -/
def add (a b : Datum) : Except Fault Datum :=
  match a, b with
  | .str s, .str t => .ok (.str (s ++ t))
  | .str _, _ => .error (.type (.concatenation a.kind b.kind))
  | .tuple s, .tuple t => .ok (.tuple (s ++ t))
  | .tuple _, _ => .error (.type (.concatenation a.kind b.kind))
  | _, _ => onNumbers "+" Num.add a b

def sub (a b : Datum) : Except Fault Datum :=
  onNumbers "-" Num.sub a b

/-- How often a datum says to repeat: a whole number of a machine word, or a truth value. -/
def count : Datum → Except Fault Nat
  | .bool b => .ok (if b then 1 else 0)
  | .int i =>
    if -(2 ^ (63 : Nat) : Int) ≤ i && i < 2 ^ (63 : Nat) then .ok i.toNat
    else .error (.overflow .count)
  | d => .error (.type (.repetition d.kind))

/-- Repeats a text or a sequence. -/
def repeated (a b : Datum) : Except Fault Datum :=
  match b.count with
  | .error e => .error e
  | .ok n =>
    match a with
    | .str s => .ok (.str (String.join (List.replicate n s)))
    | .tuple items => .ok (.tuple (List.replicate n items).flatten)
    | _ => .error (mismatch "*" a b)

/-- Multiplies numbers; a text or a sequence times a whole number repeats it. -/
def mul (a b : Datum) : Except Fault Datum :=
  match a, b with
  | .str _, _ => repeated a b
  | .tuple _, _ => repeated a b
  | _, .str _ => repeated b a
  | _, .tuple _ => repeated b a
  | _, _ => onNumbers "*" Num.mul a b

def div (a b : Datum) : Except Fault Datum :=
  onNumbers "/" Num.div a b

/-- Remainders of numbers. A text as the left operand is a pattern, which the right operand
fills. -/
def mod (a b : Datum) : Except Fault Datum :=
  match a with
  | .str pattern => (Pattern.apply pattern b).map .str
  | _ =>
    match a.num?, b.num? with
    | some x, some y =>
      match Num.mod x y with
      | .ok (some z) => .ok z.toDatum
      | .ok Option.none => .error (mismatch "%" a b)
      | .error e => .error e
    | _, _ => .error (mismatch "%" a b)

def pow (a b : Datum) : Except Fault Datum :=
  onNumbers "** or pow()" Num.pow a b

def neg (a : Datum) : Except Fault Datum :=
  match a.num? with
  | some x => .ok x.neg.toDatum
  | Option.none => .error (.type (.negation a.kind))

/-- A datum in printed text and in joined texts: truth values in lower case, whole real numbers
without a point. -/
def stringify : Datum → Except Fault String
  | .bool b => .ok (if b then "true" else "false")
  | .float x =>
    match Number.toInt? x with
    | some i => .ok (toString i)
    | Option.none => .ok (Number.showReal x)
  | .int i =>
    let digits := toString i.natAbs
    if Number.maxDigits < digits.length then .error (.value .digits) else .ok (toString i)
  | d => .ok d.plain

end Datum

end ScriptLang
