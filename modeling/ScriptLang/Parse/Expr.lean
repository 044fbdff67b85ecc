import ScriptLang.Parse.Cursor

/-!
Parsing expressions.

From the tightest to the loosest: literals, names, calls and parentheses; powers, which nest to the
right; signs and negation; then seven levels of operators that nest to the left: remainder, product,
sum, comparison, equality, `and`, `or`.
-/

namespace ScriptLang.Parse

/-- The levels of operators that nest to the left, tightest first. -/
def operators : Nat → List Kind
  | 0 => [.percent]
  | 1 => [.star, .slash]
  | 2 => [.plus, .minus]
  | 3 => [.gt, .ge, .lt, .le]
  | 4 => [.ne, .eqeq]
  | 5 => [.kwAnd]
  | _ => [.kwOr]

/-- The number of levels. -/
def levels : Nat := 7

/-- An operation of a level. -/
def operation (level : Nat) (op : Token) (left right : Expr) : Expr :=
  if level < 5 then .binary op left right op.line else .logical op left right op.line

/-- The signs that may stand before an operand. -/
def isSign (k : Kind) : Bool :=
  k == .tilde || k == .minus || k == .plus

/-- A string literal without its quotes. -/
def unquote (lexeme : String) : String :=
  String.ofList (lexeme.toList.drop 1).dropLast

mutual
/-- An expression with operators of the first `n` levels only. -/
def level (n : Nat) (c : Cursor) : Parsed Expr c.size :=
  match n with
  | 0 => unary c
  | n + 1 => (level n c).bind fun left c₁ h₁ => (levelRest n left c₁).weaken h₁
termination_by (c.size, n + 3)

/-- The operations of a level that follow a left operand. -/
def levelRest (n : Nat) (left : Expr) (c : Cursor) : Parsed Expr (c.size + 1) :=
  match h : c.ahead with
  | [] => .ok left c (Cursor.size_lt_succ c)
  | op :: rest =>
    have lt := Cursor.size_past_lt h
    if (operators n).contains op.kind then
      (level n (c.past op rest)).bind fun right c₁ h₁ =>
        have lt₁ := Cursor.lt_of_past lt h₁
        (levelRest n (operation n op left right) c₁).weaken (Cursor.succ_le_succ lt₁)
    else .ok left c (Cursor.size_lt_succ c)
termination_by (c.size, 0)

/-- Signs, then a power. -/
def unary (c : Cursor) : Parsed Expr c.size :=
  match h : c.ahead with
  | [] => exponent c
  | op :: rest =>
    have lt := Cursor.size_past_lt h
    if isSign op.kind then
      (unary (c.past op rest)).bind fun operand c₁ h₁ =>
        .ok (.unary op operand op.line) c₁ (by omega)
    else exponent c
termination_by (c.size, 2)

/-- A power. -/
def exponent (c : Cursor) : Parsed Expr c.size :=
  (primary c).bind fun left c₁ h₁ => (exponentRest left c₁).weaken h₁
termination_by (c.size, 1)

/-- The exponents that follow a base. -/
def exponentRest (left : Expr) (c : Cursor) : Parsed Expr (c.size + 1) :=
  match h : c.ahead with
  | [] => .ok left c (Nat.lt_succ_self _)
  | op :: rest =>
    have lt := Cursor.size_past_lt h
    if op.kind == .caret then
      (exponent (c.past op rest)).bind fun right c₁ h₁ =>
        (exponentRest (.binary op left right op.line) c₁).weaken (by omega)
    else .ok left c (Nat.lt_succ_self _)
termination_by (c.size, 0)

/-- A literal, a name, a call or an expression in parentheses. -/
def primary (c : Cursor) : Parsed Expr c.size :=
  match h : c.ahead with
  | [] => (c.expect .identifier).map fun t => .name t.lexeme t.line
  | t :: rest =>
    have lt := Cursor.size_past_lt h
    match t.kind with
    | .integer =>
      match Number.readWhole t.lexeme with
      | .ok n => .ok (.integer n t.line) (c.past t rest) lt
      | .error e => .error (.numeral e) (c.past t rest)
    | .float =>
      match Number.readReal t.lexeme with
      | .ok x => .ok (.real x t.line) (c.past t rest) lt
      | .error e => .error (.numeral e) (c.past t rest)
    | .kwTrue => .ok (.bool true t.line) (c.past t rest) lt
    | .kwFalse => .ok (.bool false t.line) (c.past t rest) lt
    | .string => .ok (.text (unquote t.lexeme) t.line) (c.past t rest) lt
    | .lparen =>
      (level levels (c.past t rest)).bind fun inner c₁ h₁ =>
        match h' : c₁.ahead with
        | [] => .error (.unclosed c₁.lastLine) c₁
        | close :: rest' =>
          have lt' := Cursor.size_past_lt h'
          if close.kind == .rparen then
            .ok (.group inner close.line) (c₁.past close rest') (by omega)
          else .error (.unclosed c₁.lastLine) c₁
    | .identifier =>
      match h' : (c.past t rest).ahead with
      | [] => .ok (.name t.lexeme t.line) (c.past t rest) lt
      | paren :: rest' =>
        have lt' := Cursor.size_past_lt h'
        if paren.kind == .lparen then
          (args ((c.past t rest).past paren rest')).bind fun values c₁ h₁ =>
            (c₁.expect .rparen).bind fun close c₂ h₂ =>
              .ok (.call t.lexeme values close.line) c₂ (by omega)
        else .ok (.name t.lexeme t.line) (c.past t rest) lt
    | _ => .error (.expected .identifier t.lexeme t.line) c
termination_by (c.size, 0)

/-- The arguments of a call up to its closing parenthesis, separated by commas; one more comma may
follow the last. -/
def args (c : Cursor) : Parsed (List Expr) (c.size + 1) :=
  if c.nextIs .rparen then .ok [] c (Nat.lt_succ_self _)
  else
    (level levels c).bind fun value c₁ h₁ =>
      if c₁.nextIs .rparen then .ok [value] c₁ (by omega)
      else
        (c₁.expect .comma).bind fun _ c₂ h₂ =>
          ((args c₂).map (value :: ·)).weaken (by omega)
termination_by (c.size, levels + 4)
end

/-- An expression. -/
def expr (c : Cursor) : Parsed Expr c.size :=
  level levels c

end ScriptLang.Parse
