import ScriptLang.Fault

/-!
Bitwise operations on data.

A whole number is an endless row of bits, of which a negative one ends in ones. Two truth values
give a truth value; a truth value beside a whole number counts as one.
-/

namespace ScriptLang

/-- The three bitwise operations. -/
inductive Bitwise where
  | and
  | or
  | xor
  deriving DecidableEq, Repr

namespace Bitwise

/-- The sign of an operation. -/
def sign : Bitwise → String
  | .and => "&"
  | .or => "|"
  | .xor => "^"

/-- The operation on truth values. -/
def onBool : Bitwise → Bool → Bool → Bool
  | .and, a, b => a && b
  | .or, a, b => a || b
  | .xor, a, b => a != b

/-- The operation on whole numbers: `Int.negSucc n` is the complement of `n`. -/
def onInt : Bitwise → Int → Int → Int
  | .and, .ofNat a, .ofNat b => (a &&& b : Nat)
  | .and, .ofNat a, .negSucc b => (a ^^^ (a &&& b) : Nat)
  | .and, .negSucc a, .ofNat b => (b ^^^ (a &&& b) : Nat)
  | .and, .negSucc a, .negSucc b => .negSucc (a ||| b)
  | .or, .ofNat a, .ofNat b => (a ||| b : Nat)
  | .or, .ofNat a, .negSucc b => .negSucc (b ^^^ (a &&& b))
  | .or, .negSucc a, .ofNat b => .negSucc (a ^^^ (a &&& b))
  | .or, .negSucc a, .negSucc b => .negSucc (a &&& b)
  | .xor, .ofNat a, .ofNat b => (a ^^^ b : Nat)
  | .xor, .ofNat a, .negSucc b => .negSucc (a ^^^ b)
  | .xor, .negSucc a, .ofNat b => .negSucc (a ^^^ b)
  | .xor, .negSucc a, .negSucc b => (a ^^^ b : Nat)

/-- The operation on data. -/
def onData (op : Bitwise) (a b : Datum) : Except Fault Datum :=
  match a, b with
  | .bool x, .bool y => .ok (.bool (op.onBool x y))
  | _, _ =>
    match a.num?, b.num? with
    | some (.whole x), some (.whole y) => .ok (.int (op.onInt x y))
    | _, _ => .error (.type (.operands op.sign a.kind b.kind))

end Bitwise

end ScriptLang
