import ScriptLang.Parse.Cursor

/-!
Parsing expressions of numbers by binding powers.

Every lexeme that may follow an operand has a power. An operator takes the operand before it if its
power exceeds that of the operator before. Whatever is no number, sign or parenthesis starts no
operand, so an expression may be missing altogether.
-/

namespace ScriptLang.Parse.Binding

/-- The power of a sign. -/
def signPower : Int := 3

/-- The power of a lexeme. -/
def power? (lexeme : String) : Option Int :=
  match lexeme with
  | "^" => some 4
  | "neg" => some signPower
  | "*" | "/" => some 2
  | "+" | "-" => some 1
  | "(" | ")" => some 0
  | _ => none

/-- Operators between two operands. -/
def isOperator (k : Kind) : Bool :=
  k == .plus || k == .minus || k == .star || k == .slash || k == .caret

/-- The power that an operator asks of those in its right operand. Powers nest to the right. -/
def rightPower (op : Token) (power : Int) : Int :=
  if op.kind == .caret then power - 1 else power

/-- An expression that may be missing. -/
abbrev Operand := Option Expr

/-- A number, if one follows. -/
def number? (c : Cursor) : Parsed Operand (c.size + 1) :=
  match h : c.ahead with
  | [] => .ok none c (Nat.lt_succ_self _)
  | t :: rest =>
    have lt := Nat.lt_succ_of_lt (Cursor.size_past_lt h)
    match t.kind with
    | .integer =>
      match Number.readWhole t.lexeme with
      | .ok n => .ok (some (.integer n t.line)) (c.past t rest) lt
      | .error e => .error (.numeral e) (c.past t rest)
    | .float =>
      match Number.readReal t.lexeme with
      | .ok x => .ok (some (.real x t.line)) (c.past t rest) lt
      | .error e => .error (.numeral e) (c.past t rest)
    | _ => .ok none c (Nat.lt_succ_self _)

/-- A pair is smaller if its first part is not larger and its second part is smaller. -/
theorem lex_of_lt_succ {a b m n : Nat} (h : a < b + 1) (hm : m < n) :
    Prod.Lex (· < ·) (· < ·) (a, m) (b, n) := by
  rcases Nat.lt_or_eq_of_le (Nat.le_of_lt_succ h) with h | h
  · exact Prod.Lex.left _ _ h
  · subst h
    exact Prod.Lex.right _ hm

mutual
/-- The start of an expression: a number, a sign and an operand, or parentheses. -/
def first (c : Cursor) : Parsed Operand (c.size + 1) :=
  match h : c.ahead with
  | [] => .ok none c (Nat.lt_succ_self _)
  | t :: rest =>
    have lt := Cursor.size_past_lt h
    match t.kind with
    | .lparen =>
      (expr 0 (c.past t rest)).bind fun inner c₁ h₁ =>
        (c₁.expect .rparen).bind fun close c₂ h₂ =>
          match inner with
          | some e => .ok (some (.group e close.line)) c₂ (by omega)
          | none => .error .noOperand c₂
    | .minus =>
      (expr signPower (c.past t rest)).bind fun operand c₁ h₁ =>
        match operand with
        | some e => .ok (some (.unary t e t.line)) c₁ (by omega)
        | none => .error .noOperand c₁
    | _ => number? c
termination_by (c.size, 0)

/-- An operator and its right operand, after the operand `left`. What is no operator is not read
and makes no expression. -/
def next (left : Operand) (c : Cursor) : Parsed Operand (c.size + 1) :=
  match h : c.ahead with
  | [] => .ok none c (Nat.lt_succ_self _)
  | op :: rest =>
    have lt := Cursor.size_past_lt h
    if isOperator op.kind then
      match power? op.lexeme with
      | none => .error (.noPower op.lexeme) (c.past op rest)
      | some power =>
        (expr (rightPower op power) (c.past op rest)).bind fun right c₁ h₁ =>
          match left, right with
          | some l, some r => .ok (some (.binary op l r op.line)) c₁ (by omega)
          | _, _ => .error .noOperand c₁
    else .ok none c (Nat.lt_succ_self _)
termination_by (c.size, 0)

/-- The operators after an operand whose power exceeds `bound`. -/
def chain (bound : Int) (left : Operand) (c : Cursor) : Parsed Operand (c.size + 1) :=
  match c.ahead with
  | [] => .ok left c (Nat.lt_succ_self _)
  | t :: _ =>
    match power? t.lexeme with
    | none => .error (.noPower t.lexeme) c
    | some power =>
      if bound < power then
        (next left c).bind fun left' c₁ _ =>
          if h : c₁.size < c.size then (chain bound left' c₁).weaken (by omega)
          else .error .stalled c₁
      else .ok left c (Nat.lt_succ_self _)
termination_by (c.size, 1)

/-- An expression whose operators have powers above `bound`. -/
def expr (bound : Int) (c : Cursor) : Parsed Operand (c.size + 1) :=
  (first c).bind fun left c₁ h₁ => (chain bound left c₁).weaken (by omega)
termination_by (c.size, 2)
decreasing_by
  · exact Prod.Lex.right _ (by decide)
  · exact lex_of_lt_succ h₁ (by decide)
end

/-- Parses the start of a list of tokens as an expression. -/
def parse (tokens : List Token) : Parsed Operand (tokens.length + 1) :=
  expr 0 (Cursor.ofList tokens)

end ScriptLang.Parse.Binding
