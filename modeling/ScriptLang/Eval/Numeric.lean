import ScriptLang.Report
import ScriptLang.Value.Basic

/-!
Evaluating expressions of numbers only.

Numbers, parentheses, signs and the operators `+ - * / ^` have values; nothing else has.
-/

namespace ScriptLang.Numeric

/-- The value of an operand. -/
def demand : Option Value → Except Failure Value
  | some v => .ok v
  | none => .error (.fault (.type (.unpacking Datum.none.kind)))

/-- The operators that have values. -/
def operator? : Kind → Option BinaryOp
  | .plus => some .add
  | .minus => some .sub
  | .star => some .mul
  | .slash => some .div
  | .caret => some .pow
  | _ => none

/-- The message about an operator between two tags. -/
def betweenText (op : Token) (a b : Value) : String :=
  "Unsupported operator " ++ Text.quoted op.lexeme ++ " between " ++ a.tag.plain ++ " and " ++
    b.tag.plain ++ "."

/-- The message about an operator before a tag. -/
def withText (op : Token) (v : Value) : String :=
  "Unsupported operator " ++ Text.quoted op.lexeme ++ " with " ++ v.tag.plain ++ "."

/-- Applies a binary operator. -/
def binary (op : Token) (a b : Value) (line : Line) : Except Failure (Option Value) :=
  match operator? op.kind with
  | none => .ok none
  | some o =>
    if o == .div && b.datum.same (.int 0) then
      .error (.report (.atLine line "Division by zero."))
    else
      match o.apply a b with
      | .ok v => .ok (some v)
      | .error .tags => .error (.report (.atLine op.line (betweenText op a b)))
      | .error (.fault f) => .error (.fault f)

/-- Applies a sign. -/
def unary (op : Token) (v : Value) : Except Failure (Option Value) :=
  match op.kind with
  | .minus =>
    match v.neg with
    | .ok w => .ok (some w)
    | .error .tags => .error (.report (.atLine op.line (withText op v)))
    | .error (.fault f) => .error (.fault f)
  | .plus => .ok (some v)
  | _ => .ok none

/-- Evaluates an expression. -/
def expr : Expr → Except Failure (Option Value)
  | .integer value _ =>
    match Number.ofInt? value with
    | some x => .ok (some (.number (.float x)))
    | none => .error (.fault (.overflow .conversion))
  | .real value _ => .ok (some (.number (.float value)))
  | .group inner _ => expr inner
  | .binary op left right line => do
    let a ← demand (← expr left)
    let b ← demand (← expr right)
    binary op a b line
  | .unary op operand _ => do
    let v ← demand (← expr operand)
    unary op v
  | _ => .ok none

/-- Evaluates a program; only an expression has a value. -/
def program : Program → Except Failure (Option Value)
  | .expr e => expr e
  | _ => .ok none

end ScriptLang.Numeric
