import ScriptLang.Tree.Outline

/-!
Places in a list of tokens, and parsing results that cannot stand still.

A cursor stands between two tokens. A parsing result is indexed by a bound on the tokens that are
left after it: a rule that reads at least one token returns fewer than it was given. Recursive
rules terminate by this bound.
-/

namespace ScriptLang

/-- Why parsing stops. -/
inductive ParseError where
  /-- A token of another kind was found. -/
  | expected (kind : Kind) (found : String) (line : Line)
  /-- The tokens end after the given one. -/
  | ended (last : String) (line : Line)
  /-- A parenthesis is not closed. -/
  | unclosed (line : Line)
  | tooManyParams (line : Line)
  /-- A token was asked for where there is none. -/
  | noToken
  /-- A number token that is no numeral. -/
  | numeral (cause : Number.NumeralError)
  /-- An expression standing as a statement that is not a call. -/
  | notCall (e : Expr)
  /-- The counter of a loop is not a name. -/
  | notName (e : Expr)
  /-- A token that does not bind operands. -/
  | noPower (lexeme : String)
  /-- An operator without an operand. -/
  | noOperand
  /-- A token that binds an operand but is no operator; parsing would wait at it for ever. -/
  | stalled

/-- A place in a list of tokens. -/
structure Cursor where
  /-- The tokens read, last first. -/
  behind : List Token
  /-- The tokens not read yet. -/
  ahead : List Token
  deriving DecidableEq, Repr, Inhabited

namespace Cursor

/-- The start of a list of tokens. -/
def ofList (tokens : List Token) : Cursor := ⟨[], tokens⟩

/-- How many tokens are left. -/
def size (c : Cursor) : Nat := c.ahead.length

/-- How many tokens have been read. -/
def position (c : Cursor) : Nat := c.behind.length

/-- The next token. -/
def peek? (c : Cursor) : Option Token := c.ahead.head?

/-- The token read last; at the start, the last token of all. -/
def previous? (c : Cursor) : Option Token :=
  match c.behind with
  | t :: _ => some t
  | [] => c.ahead.getLast?

/-- The line of the token read last. -/
def lastLine (c : Cursor) : Line :=
  (c.previous?.map Token.line).getD 0

/-- The kind of the next token is the given one. -/
def nextIs (c : Cursor) (kind : Kind) : Bool :=
  match c.ahead with
  | t :: _ => t.kind == kind
  | [] => false

/-- The place after a token. -/
def past (c : Cursor) (t : Token) (rest : List Token) : Cursor :=
  ⟨t :: c.behind, rest⟩

theorem size_past_lt {c : Cursor} {t : Token} {rest : List Token} (h : c.ahead = t :: rest) :
    (c.past t rest).size < c.size := by
  simp [size, past, h]

theorem size_past_le {c : Cursor} {t : Token} {rest : List Token} (h : c.ahead = t :: rest) :
    (c.past t rest).size ≤ c.size + 1 :=
  Nat.le_succ_of_le (Nat.le_of_lt (size_past_lt h))

theorem size_lt_succ (c : Cursor) : c.size < c.size + 1 :=
  Nat.lt_succ_self _

theorem lt_succ_of_lt {c c₁ : Cursor} (h : c₁.size < c.size) : c₁.size < c.size + 1 :=
  Nat.lt_succ_of_lt h

theorem succ_le_succ {c c₁ : Cursor} (h : c₁.size < c.size) : c₁.size + 1 ≤ c.size + 1 :=
  Nat.succ_le_succ (Nat.le_of_lt h)

theorem lt_trans {c c₁ c₂ : Cursor} (h : c₁.size < c.size) (h' : c₂.size < c₁.size) :
    c₂.size < c.size :=
  Nat.lt_trans h' h

/-- What is left after a token and more is less than what was there. -/
theorem lt_of_past {c c₁ : Cursor} {t : Token} {rest : List Token}
    (h : (c.past t rest).size < c.size) (h' : c₁.size < (c.past t rest).size) : c₁.size < c.size :=
  Nat.lt_trans h' h

end Cursor

/-- The result of a parsing rule: a value with fewer than `bound` tokens left, or an error and the
place where it arose. -/
inductive Parsed (α : Type) (bound : Nat) where
  | ok (value : α) (rest : Cursor) (shorter : rest.size < bound)
  | error (e : ParseError) (rest : Cursor)

namespace Parsed

variable {α β : Type} {m n : Nat}

/-- A result under a smaller bound is one under a larger. -/
def weaken (r : Parsed α m) (h : m ≤ n) : Parsed α n :=
  match r with
  | .ok a c hc => .ok a c (Nat.lt_of_lt_of_le hc h)
  | .error e c => .error e c

/-- Applies a function to the value. -/
@[inline] def map (f : α → β) (r : Parsed α n) : Parsed β n :=
  match r with
  | .ok a c hc => .ok (f a) c hc
  | .error e c => .error e c

/-- Goes on after a value. -/
@[inline] def bind (r : Parsed α m) (f : α → (c : Cursor) → c.size < m → Parsed β n) : Parsed β n :=
  match r with
  | .ok a c hc => f a c hc
  | .error e c => .error e c

/-- The value, if there is one. -/
def value? : Parsed α n → Option α
  | .ok a _ _ => some a
  | .error _ _ => none

/-- The place where parsing stopped. -/
def cursor : Parsed α n → Cursor
  | .ok _ c _ => c
  | .error _ c => c

/-- The outcome without the place. -/
def toExcept : Parsed α n → Except ParseError α
  | .ok a _ _ => .ok a
  | .error e _ => .error e

end Parsed

namespace Cursor

/-- Reads a token of the given kind. -/
def expect (c : Cursor) (kind : Kind) : Parsed Token c.size :=
  match h : c.ahead with
  | [] =>
    match c.previous? with
    | none => .error .noToken c
    | some t => .error (.ended t.lexeme t.line) c
  | t :: rest =>
    if t.kind == kind then .ok t (c.past t rest) (size_past_lt h)
    else .error (.expected kind t.lexeme t.line) c

end Cursor

end ScriptLang
