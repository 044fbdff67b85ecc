import ScriptLang.Proofs.Parse.StmtRules

/-!
The calls that the rules of the parser make of each other.

Here a rule is given the rules that it calls and nothing that says how far it may go: `run` nests
calls up to a depth and counts them. Each token that is read pays for 24 calls, and each rule has a
cost of its own beyond that (`Call.cost`). By this every rule ends at every place of every list of
tokens, with the result of the parser and after the same calls in every depth that is great enough
(`run_of_deep`).
-/

namespace ScriptLang

/-- A place among the given tokens. -/
def Cursor.Among (c : Cursor) (tokens : List Token) : Prop := c.behind.reverse ++ c.ahead = tokens

namespace Cursor

variable {c : Cursor} {tokens rest : List Token} {t : Token}

theorem among_ofList (tokens : List Token) : (ofList tokens).Among tokens := rfl

theorem Among.past (home : c.Among tokens) (ahead : c.ahead = t :: rest) :
    (c.past t rest).Among tokens := by
  rw [Among, ahead] at home
  rw [Among, behind_past, ahead_past, ← home]
  simp

theorem Among.position_add_size (home : c.Among tokens) : c.position + c.size = tokens.length := by
  rw [← home, position, size, List.length_append, List.length_reverse]

end Cursor

namespace Parse

/-- A call of a rule, with the values it is given. -/
inductive Call : Type → Type where
  | level (n : Fin (levels + 1)) : Call Expr
  | levelRest (n : Fin levels) (left : Expr) : Call Expr
  | unary : Call Expr
  | exponent : Call Expr
  | exponentRest (left : Expr) : Call Expr
  | primary : Call Expr
  | args : Call (List Expr)
  | params (count : Nat) : Call (List Param)
  | exprAfter (kind : Kind) : Call (Option Expr)
  | printRest (ending : Datum) : Call Stmt
  | retStmt : Call Stmt
  | localStmt : Call Stmt
  | plainStmt : Call Stmt
  | stmt : Call Stmt
  | branchStmt : Call Stmt
  | elseBlock : Call (Option Block)
  | loopStmt : Call Stmt
  | countStmt : Call Stmt
  | funcStmt : Call Stmt
  | stmts : Call (List Stmt)
  | block : Call Block

namespace Call

variable {α : Type}

/-- The rule reads at least one token. The others read lists that may be empty, and what may be
missing. -/
def reads : Call α → Bool
  | .levelRest .. | .exponentRest _ | .args | .params _ | .exprAfter _ => false
  | .elseBlock | .stmts | .block => false
  | _ => true

/-- More tokens than are left after a rule. -/
def bound (k : Call α) (c : Cursor) : Nat := bif k.reads then c.size else c.size + 1

/-- What the parser makes of a call. -/
def parsed : (k : Call α) → (c : Cursor) → Parsed α (k.bound c)
  | .level n, c => Parse.level n c
  | .levelRest n left, c => Parse.levelRest n left c
  | .unary, c => Parse.unary c
  | .exponent, c => Parse.exponent c
  | .exponentRest left, c => Parse.exponentRest left c
  | .primary, c => Parse.primary c
  | .args, c => Parse.args c
  | .params count, c => Parse.params count c
  | .exprAfter kind, c => Parse.exprAfter? kind c
  | .printRest ending, c => Parse.printRest ending c
  | .retStmt, c => Parse.retStmt c
  | .localStmt, c => Parse.localStmt c
  | .plainStmt, c => Parse.plainStmt c
  | .stmt, c => Parse.stmt c
  | .branchStmt, c => Parse.branchStmt c
  | .elseBlock, c => Parse.elseBlock? c
  | .loopStmt, c => Parse.loopStmt c
  | .countStmt, c => Parse.countStmt c
  | .funcStmt, c => Parse.funcStmt c
  | .stmts, c => Parse.stmts c
  | .block, c => Parse.block c

/-- An expression. -/
def expr : Call Expr := .level (Fin.last levels)

/-- A bound on the depth of the calls that a call leads to before a token is read. -/
def rank : Call α → Nat
  | .level n => 4 + n
  | .unary => 3
  | .exponent => 2
  | .args | .printRest _ | .plainStmt => 12
  | .stmt => 13
  | .stmts => 14
  | .block => 15
  | _ => 1

/-- The calls that a call makes, itself included, beyond those that the tokens it reads pay for. -/
def cost : Call α → Nat
  | .level n => 5 + 2 * n
  | .unary => 4
  | .exponent => 3
  | .levelRest .. | .exponentRest _ | .args | .params _ | .exprAfter _ => 25
  | .printRest _ => 20
  | .plainStmt => 21
  | .stmt => 22
  | .elseBlock | .stmts => 25
  | .block => 26
  | _ => 1

end Call

/-! ### Runs -/

/-- What a call comes to, with the number of calls made on the way. -/
inductive Run (α : Type) where
  | ok (value : α) (rest : Cursor) (calls : Nat)
  | error (e : ParseError) (rest : Cursor) (calls : Nat)
  /-- The calls were nested too deep. -/
  | tooDeep

namespace Run

variable {α β : Type}

/-- Counts more calls. -/
def add (calls : Nat) : Run α → Run α
  | .ok a c k => .ok a c (calls + k)
  | .error e c k => .error e c (calls + k)
  | .tooDeep => .tooDeep

/-- Goes on after a value. -/
def bind (r : Run α) (f : α → Cursor → Run β) : Run β :=
  match r with
  | .ok a c k => (f a c).add k
  | .error e c k => .error e c k
  | .tooDeep => .tooDeep

/-- Applies a function to the value. -/
def map (f : α → β) : Run α → Run β
  | .ok a c k => .ok (f a) c k
  | .error e c k => .error e c k
  | .tooDeep => .tooDeep

/-- A result of the parser, as one that took the given number of calls. -/
def ofParsed {n : Nat} (calls : Nat) : Parsed α n → Run α
  | .ok a c _ => .ok a c calls
  | .error e c => .error e c calls

/-- A value or an error at a place. -/
def ofExcept (c : Cursor) : Except ParseError α → Run α
  | .ok a => .ok a c 0
  | .error e => .error e c 0

end Run

/-! ### What a rule does, given how the rules that it calls are run -/

namespace Body

open Run

variable (call : {β : Type} → Call β → Cursor → Run β)

def level : Fin (levels + 1) → Cursor → Run Expr
  | ⟨0, _⟩, c => call .unary c
  | ⟨n + 1, h⟩, c =>
    (call (.level ⟨n, Nat.lt_of_succ_lt h⟩) c).bind fun left c =>
      call (.levelRest ⟨n, Nat.lt_of_succ_lt_succ h⟩ left) c

def levelRest (n : Fin levels) (left : Expr) (c : Cursor) : Run Expr :=
  match c.ahead with
  | [] => .ok left c 0
  | op :: rest =>
    if (operators n).contains op.kind then
      (call (.level n.castSucc) (c.past op rest)).bind fun right c =>
        call (.levelRest n (operation n op left right)) c
    else .ok left c 0

def unary (c : Cursor) : Run Expr :=
  match c.ahead with
  | [] => call .exponent c
  | op :: rest =>
    if isSign op.kind then
      (call .unary (c.past op rest)).bind fun operand c => .ok (.unary op operand op.line) c 0
    else call .exponent c

def exponent (c : Cursor) : Run Expr :=
  (call .primary c).bind fun left c => call (.exponentRest left) c

def exponentRest (left : Expr) (c : Cursor) : Run Expr :=
  match c.ahead with
  | [] => .ok left c 0
  | op :: rest =>
    if op.kind == .caret then
      (call .exponent (c.past op rest)).bind fun right c =>
        call (.exponentRest (.binary op left right op.line)) c
    else .ok left c 0

/-- The end of an expression in parentheses. -/
def close (inner : Expr) (c : Cursor) : Run Expr :=
  match c.ahead with
  | [] => .error (.unclosed c.lastLine) c 0
  | close :: rest =>
    if close.kind == .rparen then .ok (.group inner close.line) (c.past close rest) 0
    else .error (.unclosed c.lastLine) c 0

def primary (c : Cursor) : Run Expr :=
  match c.ahead with
  | [] => (ofParsed 0 (c.expect .identifier)).map fun t => .name t.lexeme t.line
  | t :: rest =>
    match t.kind with
    | .integer =>
      match Number.readWhole t.lexeme with
      | .ok n => .ok (.integer n t.line) (c.past t rest) 0
      | .error e => .error (.numeral e) (c.past t rest) 0
    | .float =>
      match Number.readReal t.lexeme with
      | .ok x => .ok (.real x t.line) (c.past t rest) 0
      | .error e => .error (.numeral e) (c.past t rest) 0
    | .kwTrue => .ok (.bool true t.line) (c.past t rest) 0
    | .kwFalse => .ok (.bool false t.line) (c.past t rest) 0
    | .string => .ok (.text (unquote t.lexeme) t.line) (c.past t rest) 0
    | .lparen =>
      (call .expr (c.past t rest)).bind close
    | .identifier =>
      match rest with
      | [] => .ok (.name t.lexeme t.line) (c.past t rest) 0
      | paren :: rest' =>
        if paren.kind == .lparen then
          (call .args ((c.past t rest).past paren rest')).bind fun values c =>
            (ofParsed 0 (c.expect .rparen)).bind fun close c =>
              .ok (.call t.lexeme values close.line) c 0
        else .ok (.name t.lexeme t.line) (c.past t rest) 0
    | _ => .error (.expected .identifier t.lexeme t.line) c 0

def args (c : Cursor) : Run (List Expr) :=
  if c.nextIs .rparen then .ok [] c 0
  else
    (call .expr c).bind fun value c =>
      if c.nextIs .rparen then .ok [value] c 0
      else
        (ofParsed 0 (c.expect .comma)).bind fun _ c => (call .args c).map (value :: ·)

def params (count : Nat) (c : Cursor) : Run (List Param) :=
  if c.nextIs .rparen then .ok [] c 0
  else
    (ofParsed 0 (c.expect .identifier)).bind fun t c =>
      if maxParams ≤ count then .error (.tooManyParams t.line) c 0
      else if c.nextIs .rparen then .ok [⟨t.lexeme, t.line⟩] c 0
      else
        (ofParsed 0 (c.expect .comma)).bind fun _ c =>
          (call (.params (count + 1)) c).map (⟨t.lexeme, t.line⟩ :: ·)

def exprAfter (kind : Kind) (c : Cursor) : Run (Option Expr) :=
  match c.ahead with
  | [] => .ok none c 0
  | t :: rest =>
    if t.kind == kind then (call .expr (c.past t rest)).map some else .ok none c 0

def printRest (ending : Datum) (c : Cursor) : Run Stmt :=
  (call .expr c).bind fun value c => .ok (.print value ending c.lastLine) c 0

def retStmt (c : Cursor) : Run Stmt :=
  (ofParsed 0 (c.expect .kwRet)).bind fun _ c =>
    (call .expr c).bind fun value c => .ok (.ret value c.lastLine) c 0

def localStmt (c : Cursor) : Run Stmt :=
  (ofParsed 0 (c.expect .kwLocal)).bind fun _ c =>
    (call .expr c).bind fun target c =>
      (ofParsed 0 (c.expect .assign)).bind fun _ c =>
        (call .expr c).bind fun value c =>
          .ok (.assignLocal target value c.lastLine) c 0

def plainStmt (c : Cursor) : Run Stmt :=
  (call .expr c).bind fun left c =>
    (call (.exprAfter .assign) c).bind fun value c =>
      match value with
      | some value => .ok (.assign left value c.lastLine) c 0
      | none => .ofExcept c (callStmt left)

def stmt (c : Cursor) : Run Stmt :=
  match c.ahead with
  | [] => .error .noToken c 0
  | t :: rest =>
    match t.kind with
    | .kwPrint => call (.printRest (.str "")) (c.past t rest)
    | .kwPrintln => call (.printRest (.str "\n")) (c.past t rest)
    | .kwIf => call .branchStmt c
    | .kwWhile => call .loopStmt c
    | .kwFor => call .countStmt c
    | .kwFunc => call .funcStmt c
    | .kwRet => call .retStmt c
    | .kwLocal => call .localStmt c
    | _ => call .plainStmt c

def branchStmt (c : Cursor) : Run Stmt :=
  (ofParsed 0 (c.expect .kwIf)).bind fun _ c =>
    (call .expr c).bind fun test c =>
      (ofParsed 0 (c.expect .kwThen)).bind fun _ c =>
        (call .block c).bind fun thenBlock c =>
          (call .elseBlock c).bind fun elseBlock c =>
            (ofParsed 0 (c.expect .kwEnd)).bind fun close c =>
              .ok (.branch test thenBlock elseBlock close.line) c 0

def elseBlock (c : Cursor) : Run (Option Block) :=
  match c.ahead with
  | [] => .ok none c 0
  | t :: rest =>
    if t.kind == .kwElse then (call .block (c.past t rest)).map some else .ok none c 0

def loopStmt (c : Cursor) : Run Stmt :=
  (ofParsed 0 (c.expect .kwWhile)).bind fun _ c =>
    (call .expr c).bind fun test c =>
      (ofParsed 0 (c.expect .kwDo)).bind fun _ c =>
        (call .block c).bind fun body c =>
          (ofParsed 0 (c.expect .kwEnd)).bind fun close c =>
            .ok (.loop test body close.line) c 0

def countStmt (c : Cursor) : Run Stmt :=
  (ofParsed 0 (c.expect .kwFor)).bind fun _ c =>
    (call .primary c).bind fun counter c =>
      (ofParsed 0 (c.expect .assign)).bind fun _ c =>
        (call .expr c).bind fun start c =>
          (ofParsed 0 (c.expect .comma)).bind fun _ c =>
            (call .expr c).bind fun stop c =>
              (call (.exprAfter .comma) c).bind fun step c =>
                (ofParsed 0 (c.expect .kwDo)).bind fun _ c =>
                  (call .block c).bind fun body c =>
                    (ofParsed 0 (c.expect .kwEnd)).bind fun close c =>
                      .ofExcept c (countStmtOf counter start stop step body close.line)

def funcStmt (c : Cursor) : Run Stmt :=
  (ofParsed 0 (c.expect .kwFunc)).bind fun _ c =>
    (ofParsed 0 (c.expect .identifier)).bind fun name c =>
      (ofParsed 0 (c.expect .lparen)).bind fun _ c =>
        (call (.params 0) c).bind fun ps c =>
          (ofParsed 0 (c.expect .rparen)).bind fun _ c =>
            (call .block c).bind fun body c =>
              (ofParsed 0 (c.expect .kwEnd)).bind fun _ c =>
                .ok (.func name.lexeme ps body name.line) c 0

def stmts (c : Cursor) : Run (List Stmt) :=
  if endsBlock c then .ok [] c 0
  else (call .stmt c).bind fun s c => (call .stmts c).map (s :: ·)

def block (c : Cursor) : Run Block :=
  (call .stmts c).bind fun ss c =>
    match c.previous? with
    | none => .error .noToken c 0
    | some t => .ok (.mk ss t.line) c 0

end Body

/-- What a rule does. -/
def body (call : {β : Type} → Call β → Cursor → Run β) {α : Type} : Call α → Cursor → Run α
  | .level n => Body.level call n
  | .levelRest n left => Body.levelRest call n left
  | .unary => Body.unary call
  | .exponent => Body.exponent call
  | .exponentRest left => Body.exponentRest call left
  | .primary => Body.primary call
  | .args => Body.args call
  | .params count => Body.params call count
  | .exprAfter kind => Body.exprAfter call kind
  | .printRest ending => Body.printRest call ending
  | .retStmt => Body.retStmt call
  | .localStmt => Body.localStmt call
  | .plainStmt => Body.plainStmt call
  | .stmt => Body.stmt call
  | .branchStmt => Body.branchStmt call
  | .elseBlock => Body.elseBlock call
  | .loopStmt => Body.loopStmt call
  | .countStmt => Body.countStmt call
  | .funcStmt => Body.funcStmt call
  | .stmts => Body.stmts call
  | .block => Body.block call

/-- A call, with calls nested at most to the given depth. -/
def run : Nat → {α : Type} → Call α → Cursor → Run α
  | 0, _, _, _ => .tooDeep
  | depth + 1, _, k, c => (body (fun k c => run depth k c) k c).add 1

/-! ### What is paid for -/

/-- Two runs come to the result of the parser after the same calls, at a place among the tokens.
The calls are paid out of a budget, with 24 of it left for each token that is left and for the end;
an error leaves nothing. -/
inductive Within (tokens : List Token) (budget : Nat) {α : Type} {n : Nat} :
    Run α → Run α → Parsed α n → Prop where
  | ok {a c h calls} : c.Among tokens → calls + 24 * (c.size + 1) ≤ budget →
      Within tokens budget (.ok a c calls) (.ok a c calls) (.ok a c h)
  | error {e c calls} : calls ≤ budget →
      Within tokens budget (.error e c calls) (.error e c calls) (.error e c)

section Within

variable {tokens rest : List Token} {α β : Type} {b B B' m n : Nat} {r r' : Run α}
  {p : Parsed α m} {c : Cursor} {t : Token} {k : Kind}

theorem Within.add (h : Within tokens B r r' p) (calls : Nat) :
    Within tokens (B + calls) (r.add calls) (r'.add calls) p := by
  cases h with
  | ok home paid => exact .ok home (by omega)
  | error paid => exact .error (by omega)

theorem Within.mono (h : Within tokens B r r' p) (le : B ≤ B') : Within tokens B' r r' p := by
  cases h with
  | ok home paid => exact .ok home (by omega)
  | error paid => exact .error (by omega)

theorem Within.weaken (h : Within tokens B r r' p) {le : m ≤ n} :
    Within tokens B r r' (p.weaken le) := by
  cases h with
  | ok home paid => exact .ok home paid
  | error paid => exact .error paid

theorem Within.map (h : Within tokens B r r' p) (f : α → β) :
    Within tokens B (r.map f) (r'.map f) (p.map f) := by
  cases h with
  | ok home paid => exact .ok home paid
  | error paid => exact .error paid

variable {f f' : α → Cursor → Run β} {g : α → (c : Cursor) → c.size < m → Parsed β n}

/-- The place where the first part ends pays for 24 calls of the second. -/
theorem Within.bind_more (first : Within tokens B r r' p)
    (second : ∀ a c h, c.Among tokens →
      Within tokens (24 * c.size + (24 + b)) (f a c) (f' a c) (g a c h)) :
    Within tokens (B + b) (r.bind f) (r'.bind f') (p.bind g) := by
  cases first with
  | error paid => exact .error (by omega)
  | @ok a c h calls home paid =>
    exact ((second a c h home).add calls).mono (by omega)

theorem Within.bind (first : Within tokens B r r' p)
    (second : ∀ a c h, c.Among tokens →
      Within tokens (24 * c.size + b) (f a c) (f' a c) (g a c h))
    (small : b ≤ 24) : Within tokens B (r.bind f) (r'.bind f') (p.bind g) := by
  refine Within.bind_more (b := 0) first fun a c h home => (second a c h home).mono ?_
  exact Nat.add_le_add_left small _

theorem Within.same (h : Within tokens B r r' p) : r' = r := by
  cases h with
  | ok | error => rfl

theorem Within.ofParsed (h : Within tokens B r r' p) :
    ∃ calls, calls ≤ B ∧ r = .ofParsed calls p := by
  cases h with
  | ok home paid => exact ⟨_, Nat.le_trans (Nat.le_add_right _ _) paid, rfl⟩
  | error paid => exact ⟨_, paid, rfl⟩

theorem Within.among (h : Within tokens B r r' p) {a : α} (given : p.Gives a c) :
    c.Among tokens := by
  cases h with
  | ok home paid =>
    obtain ⟨-, rfl⟩ := Parsed.ok_gives.mp given
    exact home
  | error paid => exact absurd given Parsed.error_gives

theorem within_here {a : α} {h : c.size < n} (home : c.Among tokens) :
    Within tokens (24 * c.size + 24) (.ok a c 0) (.ok a c 0) (.ok a c h : Parsed α n) :=
  .ok home (by omega)

theorem within_error {e : ParseError} :
    Within tokens B (.error e c 0) (.error e c 0) (.error e c : Parsed α n) :=
  .error (Nat.zero_le _)

theorem within_past {a : α} {h : (c.past t rest).size < n} (home : c.Among tokens)
    (ahead : c.ahead = t :: rest) :
    Within tokens (24 * c.size) (.ok a (c.past t rest) 0) (.ok a (c.past t rest) 0)
      (.ok a (c.past t rest) h) := by
  have shorter := Cursor.size_past_lt ahead
  exact .ok (home.past ahead) (by omega)

theorem within_expect (home : c.Among tokens) :
    Within tokens (24 * c.size) (.ofParsed 0 (c.expect k)) (.ofParsed 0 (c.expect k))
      (c.expect k) := by
  cases found : c.expect k with
  | error e c' => exact within_error
  | ok t c' h =>
    obtain ⟨rest, ahead, -, rfl⟩ := Cursor.expect_gives.mp ⟨h, found⟩
    exact within_past home ahead

end Within

/-! ### What a rule does -/

/-- Two ways to run calls agree, and come to the results of the parser within the budget of the
rules, on calls that need no more than the given depth. -/
def Good (tokens : List Token) (depth : Nat) (call call' : {β : Type} → Call β → Cursor → Run β) :
    Prop :=
  ∀ {β : Type} (k : Call β) (c : Cursor), c.Among tokens → 16 * c.size + k.rank ≤ depth →
    Within tokens (24 * c.size + k.cost) (call k c) (call' k c) (k.parsed c)

section Bodies

variable {tokens : List Token} {d : Nat} {call call' : {β : Type} → Call β → Cursor → Run β}
  {c : Cursor}

/-- A call of a rule, with its rank and its cost written out. -/
theorem Good.ask (good : Good tokens d call call') {β : Type} (k : Call β) (r w : Nat)
    (rank : k.rank = r) (cost : k.cost = w) (home : c.Among tokens) (deep : 16 * c.size + r ≤ d) :
    Within tokens (24 * c.size + w) (call k c) (call' k c) (k.parsed c) := by
  subst rank cost
  exact good k c home deep

theorem Good.expr (good : Good tokens d call call') (home : c.Among tokens)
    (deep : 16 * c.size + 11 ≤ d) :
    Within tokens (24 * c.size + 19) (call .expr c) (call' .expr c) (Parse.expr c) :=
  good .expr c home deep

variable (good : Good tokens d call call') (home : c.Among tokens)
include good home

/-! Expressions -/

theorem body_level {n : Fin (levels + 1)} (deep : 16 * c.size + (4 + n) ≤ d + 1) :
    Within tokens (24 * c.size + (4 + 2 * n)) (Body.level call n c) (Body.level call' n c)
      (level n c) := by
  obtain ⟨n, known⟩ := n
  simp only at deep ⊢
  cases n with
  | zero =>
    rw [level]
    exact good.ask .unary 3 4 rfl rfl home (by omega)
  | succ n =>
    rw [level]
    have operand := good.ask (.level ⟨n, by omega⟩) (4 + n) (5 + 2 * n) rfl rfl home (by omega)
    refine Within.mono (Within.bind_more (b := 1) operand ?_) (by omega)
    intro left c₁ h₁ home₁
    have h₁ : c₁.size < c.size := h₁
    exact (good.ask (.levelRest ⟨n, by omega⟩ left) 1 25 rfl rfl home₁ (by omega)).weaken

theorem body_levelRest {n : Fin levels} {left : Expr} (deep : 16 * c.size + 1 ≤ d + 1) :
    Within tokens (24 * c.size + 24) (Body.levelRest call n left c) (Body.levelRest call' n left c)
      (levelRest n left c) := by
  have small : n.val < 7 := n.isLt
  rw [levelRest]
  split
  · rename_i ended
    simp only [Body.levelRest, ended]
    exact within_here home
  · rename_i op rest ahead
    have shorter := Cursor.size_past_lt ahead
    simp only [Body.levelRest, ahead]
    split
    · have operand := good.ask (.level n.castSucc) (4 + n) (5 + 2 * n) rfl rfl (home.past ahead)
        (by omega)
      refine Within.bind_more (b := 1) (operand.mono (by omega)) ?_
      intro right c₁ h₁ home₁
      have h₁ : c₁.size < (c.past op rest).size := h₁
      have others := good.ask (.levelRest n (operation n op left right)) 1 25 rfl rfl home₁
        (by omega)
      exact others.weaken
    · exact within_here home

theorem body_unary (deep : 16 * c.size + 3 ≤ d + 1) :
    Within tokens (24 * c.size + 3) (Body.unary call c) (Body.unary call' c)
      (unary c) := by
  rw [unary]
  split
  · rename_i ended
    simp only [Body.unary, ended]
    exact good.ask .exponent 2 3 rfl rfl home (by omega)
  · rename_i op rest ahead
    have shorter := Cursor.size_past_lt ahead
    simp only [Body.unary, ahead]
    split
    · have operand := good.ask .unary 3 4 rfl rfl (home.past ahead) (by omega)
      refine Within.bind (b := 24) (operand.mono (by omega)) ?_ (by decide)
      intro operand c₁ h home₁
      exact within_here home₁
    · exact good.ask .exponent 2 3 rfl rfl home (by omega)

theorem body_exponent (deep : 16 * c.size + 2 ≤ d + 1) :
    Within tokens (24 * c.size + 2) (Body.exponent call c) (Body.exponent call' c)
      (exponent c) := by
  rw [exponent]
  refine Within.bind_more (b := 1) (good.ask .primary 1 1 rfl rfl home (by omega)) ?_
  intro left c₁ h home₁
  exact (good.ask (.exponentRest left) 1 25 rfl rfl home₁ (by omega)).weaken

theorem body_exponentRest {left : Expr} (deep : 16 * c.size + 1 ≤ d + 1) :
    Within tokens (24 * c.size + 24) (Body.exponentRest call left c)
      (Body.exponentRest call' left c) (exponentRest left c) := by
  rw [exponentRest]
  split
  · rename_i ended
    simp only [Body.exponentRest, ended]
    exact within_here home
  · rename_i op rest ahead
    have shorter := Cursor.size_past_lt ahead
    simp only [Body.exponentRest, ahead]
    split
    · have operand := good.ask .exponent 2 3 rfl rfl (home.past ahead) (by omega)
      refine Within.bind_more (b := 1) (operand.mono (by omega)) ?_
      intro right c₁ h home₁
      have others := good.ask (.exponentRest (.binary op left right op.line)) 1 25 rfl rfl home₁
        (by omega)
      exact others.weaken
    · exact within_here home

theorem body_primary (deep : 16 * c.size + 1 ≤ d + 1) :
    Within tokens (24 * c.size) (Body.primary call c) (Body.primary call' c)
      (primary c) := by
  rw [primary]
  split
  · rename_i ended
    simp only [Body.primary, ended]
    exact (within_expect home).map _
  · rename_i t rest ahead
    have shorter := Cursor.size_past_lt ahead
    have home' := home.past ahead
    split
    · rename_i kind
      simp only [Body.primary, ahead, kind]
      cases Number.readWhole t.lexeme with
      | ok n => exact within_past home ahead
      | error e => exact within_error
    · rename_i kind
      simp only [Body.primary, ahead, kind]
      cases Number.readReal t.lexeme with
      | ok n => exact within_past home ahead
      | error e => exact within_error
    · rename_i kind
      simp only [Body.primary, ahead, kind]
      exact within_past home ahead
    · rename_i kind
      simp only [Body.primary, ahead, kind]
      exact within_past home ahead
    · rename_i kind
      simp only [Body.primary, ahead, kind]
      exact within_past home ahead
    · rename_i kind
      simp only [Body.primary, ahead, kind]
      refine Within.bind (b := 0) ((good.expr home' (by omega)).mono (by omega)) ?_ (by decide)
      intro inner c₁ h₁ home₁
      split
      · rename_i ended
        simp only [Body.close, ended]
        exact within_error
      · rename_i close rest' ahead'
        simp only [Body.close, ahead']
        split
        · exact within_past home₁ ahead'
        · exact within_error
    · rename_i kind
      split
      · rename_i ended
        obtain rfl : rest = [] := ended
        simp only [Body.primary, ahead, kind]
        exact within_past home ahead
      · rename_i paren rest' ahead'
        obtain rfl : rest = paren :: rest' := ahead'
        have shorter' := Cursor.size_past_lt (c := c.past t (paren :: rest')) rfl
        simp only [Body.primary, ahead, kind]
        split
        · have values := good.ask .args 12 25 rfl rfl (home'.past rfl) (by omega)
          refine Within.bind (b := 0) (values.mono (by omega)) ?_ (by decide)
          intro values c₁ h₁ home₁
          refine Within.bind (b := 24) (within_expect home₁) ?_ (by decide)
          intro close c₂ h₂ home₂
          exact within_here home₂
        · exact within_past home ahead
    · simp only [Body.primary, ahead]
      exact within_error

theorem body_args (deep : 16 * c.size + 12 ≤ d + 1) :
    Within tokens (24 * c.size + 24) (Body.args call c) (Body.args call' c)
      (args c) := by
  rw [args]
  simp only [Body.args]
  split
  · exact within_here home
  · refine Within.bind (b := 24) ((good.expr home (by omega)).mono (by omega)) ?_ (by decide)
    intro value c₁ h₁ home₁
    split
    · exact within_here home₁
    · refine Within.bind_more (b := 1) ((within_expect home₁).mono (by omega)) ?_
      intro comma c₂ h₂ home₂
      exact ((good.ask .args 12 25 rfl rfl home₂ (by omega)).map _).weaken

/-! Statements -/

theorem body_params {count : Nat} (deep : 16 * c.size + 1 ≤ d + 1) :
    Within tokens (24 * c.size + 24) (Body.params call count c) (Body.params call' count c)
      (params count c) := by
  rw [params]
  simp only [Body.params]
  split
  · exact within_here home
  · refine Within.bind (b := 24) ((within_expect home).mono (by omega)) ?_ (by decide)
    intro t c₁ h₁ home₁
    split
    · exact within_error
    · split
      · exact within_here home₁
      · refine Within.bind_more (b := 1) ((within_expect home₁).mono (by omega)) ?_
        intro comma c₂ h₂ home₂
        exact ((good.ask (.params (count + 1)) 1 25 rfl rfl home₂ (by omega)).map _).weaken

theorem body_exprAfter {kind : Kind} (deep : 16 * c.size + 1 ≤ d + 1) :
    Within tokens (24 * c.size + 24) (Body.exprAfter call kind c) (Body.exprAfter call' kind c)
      (exprAfter? kind c) := by
  rw [exprAfter?]
  split
  · rename_i ended
    simp only [Body.exprAfter, ended]
    exact within_here home
  · rename_i t rest ahead
    have shorter := Cursor.size_past_lt ahead
    simp only [Body.exprAfter, ahead]
    split
    · exact ((good.expr (home.past ahead) (by omega)).map some).weaken.mono (by omega)
    · exact within_here home

theorem body_printRest {ending : Datum} (deep : 16 * c.size + 12 ≤ d + 1) :
    Within tokens (24 * c.size + 19) (Body.printRest call ending c) (Body.printRest call' ending c)
      (printRest ending c) := by
  rw [printRest]
  refine Within.bind (b := 24) (good.expr home (by omega)) ?_ (by decide)
  intro value c₁ h₁ home₁
  exact within_here home₁

theorem body_retStmt (deep : 16 * c.size + 1 ≤ d + 1) :
    Within tokens (24 * c.size) (Body.retStmt call c) (Body.retStmt call' c)
      (retStmt c) := by
  rw [retStmt]
  refine Within.bind (b := 19) (within_expect home) ?_ (by decide)
  intro word c₁ h₁ home₁
  refine Within.bind (b := 24) (good.expr home₁ (by omega)) ?_ (by decide)
  intro value c₂ h₂ home₂
  exact within_here home₂

theorem body_localStmt (deep : 16 * c.size + 1 ≤ d + 1) :
    Within tokens (24 * c.size) (Body.localStmt call c) (Body.localStmt call' c)
      (localStmt c) := by
  rw [localStmt]
  refine Within.bind (b := 19) (within_expect home) ?_ (by decide)
  intro word c₁ h₁ home₁
  refine Within.bind (b := 0) (good.expr home₁ (by omega)) ?_ (by decide)
  intro target c₂ h₂ home₂
  refine Within.bind (b := 19) (within_expect home₂) ?_ (by decide)
  intro assign c₃ h₃ home₃
  refine Within.bind (b := 24) (good.expr home₃ (by omega)) ?_ (by decide)
  intro value c₄ h₄ home₄
  exact within_here home₄

theorem body_plainStmt (deep : 16 * c.size + 12 ≤ d + 1) :
    Within tokens (24 * c.size + 20) (Body.plainStmt call c) (Body.plainStmt call' c)
      (plainStmt c) := by
  rw [plainStmt]
  refine Within.bind_more (b := 1) (good.expr home (by omega)) ?_
  intro left c₁ h₁ home₁
  have right := good.ask (.exprAfter .assign) 1 25 rfl rfl home₁ (by omega)
  refine Within.bind (b := 24) right ?_ (by decide)
  intro value c₂ h₂ home₂
  cases value with
  | some value => exact within_here home₂
  | none =>
    cases callStmt left with
    | ok s => exact within_here home₂
    | error e => exact within_error

theorem body_stmt (deep : 16 * c.size + 13 ≤ d + 1) :
    Within tokens (24 * c.size + 21) (Body.stmt call c) (Body.stmt call' c)
      (stmt c) := by
  rw [stmt]
  split
  · rename_i ended
    simp only [Body.stmt, ended]
    exact within_error
  · rename_i t rest ahead
    have shorter := Cursor.size_past_lt ahead
    have words : 24 * c.size + 1 ≤ 24 * c.size + 21 := by omega
    have printed : 24 * (c.past t rest).size + 20 ≤ 24 * c.size + 21 := by omega
    split
    · rename_i kind
      simp only [Body.stmt, ahead, kind]
      have more := good.ask (.printRest (.str "")) 12 20 rfl rfl (home.past ahead) (by omega)
      exact more.weaken.mono printed
    · rename_i kind
      simp only [Body.stmt, ahead, kind]
      have more := good.ask (.printRest (.str "\n")) 12 20 rfl rfl (home.past ahead) (by omega)
      exact more.weaken.mono printed
    · rename_i kind
      simp only [Body.stmt, ahead, kind]
      exact (good.ask .branchStmt 1 1 rfl rfl home (by omega)).mono words
    · rename_i kind
      simp only [Body.stmt, ahead, kind]
      exact (good.ask .loopStmt 1 1 rfl rfl home (by omega)).mono words
    · rename_i kind
      simp only [Body.stmt, ahead, kind]
      exact (good.ask .countStmt 1 1 rfl rfl home (by omega)).mono words
    · rename_i kind
      simp only [Body.stmt, ahead, kind]
      exact (good.ask .funcStmt 1 1 rfl rfl home (by omega)).mono words
    · rename_i kind
      simp only [Body.stmt, ahead, kind]
      exact (good.ask .retStmt 1 1 rfl rfl home (by omega)).mono words
    · rename_i kind
      simp only [Body.stmt, ahead, kind]
      exact (good.ask .localStmt 1 1 rfl rfl home (by omega)).mono words
    · simp only [Body.stmt, ahead]
      exact good.ask .plainStmt 12 21 rfl rfl home (by omega)

theorem body_branchStmt (deep : 16 * c.size + 1 ≤ d + 1) :
    Within tokens (24 * c.size) (Body.branchStmt call c) (Body.branchStmt call' c)
      (branchStmt c) := by
  rw [branchStmt]
  refine Within.bind (b := 19) (within_expect home) ?_ (by decide)
  intro word c₁ h₁ home₁
  refine Within.bind (b := 3) (good.expr home₁ (by omega)) ?_ (by decide)
  intro test c₂ h₂ home₂
  refine Within.bind_more (b := 3) (within_expect home₂) ?_
  intro thenWord c₃ h₃ home₃
  refine Within.bind_more (b := 1) (good.ask .block 15 26 rfl rfl home₃ (by omega)) ?_
  intro thenBlock c₄ h₄ home₄
  refine Within.bind (b := 0) (good.ask .elseBlock 1 25 rfl rfl home₄ (by omega)) ?_ (by decide)
  intro elseBlock c₅ h₅ home₅
  refine Within.bind (b := 24) (within_expect home₅) ?_ (by decide)
  intro close c₆ h₆ home₆
  exact within_here home₆

theorem body_elseBlock (deep : 16 * c.size + 1 ≤ d + 1) :
    Within tokens (24 * c.size + 24) (Body.elseBlock call c) (Body.elseBlock call' c)
      (elseBlock? c) := by
  rw [elseBlock?]
  split
  · rename_i ended
    simp only [Body.elseBlock, ended]
    exact within_here home
  · rename_i t rest ahead
    have shorter := Cursor.size_past_lt ahead
    have paid : 24 * (c.past t rest).size + 26 ≤ 24 * c.size + 24 := by omega
    simp only [Body.elseBlock, ahead]
    split
    · exact ((good.ask .block 15 26 rfl rfl (home.past ahead) (by omega)).map some).weaken.mono paid
    · exact within_here home

theorem body_loopStmt (deep : 16 * c.size + 1 ≤ d + 1) :
    Within tokens (24 * c.size) (Body.loopStmt call c) (Body.loopStmt call' c)
      (loopStmt c) := by
  rw [loopStmt]
  refine Within.bind (b := 19) (within_expect home) ?_ (by decide)
  intro word c₁ h₁ home₁
  refine Within.bind (b := 2) (good.expr home₁ (by omega)) ?_ (by decide)
  intro test c₂ h₂ home₂
  refine Within.bind_more (b := 2) (within_expect home₂) ?_
  intro doWord c₃ h₃ home₃
  refine Within.bind (b := 0) (good.ask .block 15 26 rfl rfl home₃ (by omega)) ?_ (by decide)
  intro body c₄ h₄ home₄
  refine Within.bind (b := 24) (within_expect home₄) ?_ (by decide)
  intro close c₅ h₅ home₅
  exact within_here home₅

theorem body_countStmt (deep : 16 * c.size + 1 ≤ d + 1) :
    Within tokens (24 * c.size) (Body.countStmt call c) (Body.countStmt call' c)
      (countStmt c) := by
  rw [countStmt]
  refine Within.bind (b := 1) (within_expect home) ?_ (by decide)
  intro word c₁ h₁ home₁
  refine Within.bind (b := 0) (good.ask .primary 1 1 rfl rfl home₁ (by omega)) ?_ (by decide)
  intro counter c₂ h₂ home₂
  refine Within.bind (b := 19) (within_expect home₂) ?_ (by decide)
  intro assign c₃ h₃ home₃
  refine Within.bind (b := 0) (good.expr home₃ (by omega)) ?_ (by decide)
  intro start c₄ h₄ home₄
  refine Within.bind (b := 20) (within_expect home₄) ?_ (by decide)
  intro comma c₅ h₅ home₅
  refine Within.bind_more (b := 1) (good.expr home₅ (by omega)) ?_
  intro stop c₆ h₆ home₆
  have stepped := good.ask (.exprAfter .comma) 1 25 rfl rfl home₆ (by omega)
  refine Within.bind (b := 2) stepped ?_ (by decide)
  intro step c₇ h₇ home₇
  refine Within.bind_more (b := 2) (within_expect home₇) ?_
  intro doWord c₈ h₈ home₈
  refine Within.bind (b := 0) (good.ask .block 15 26 rfl rfl home₈ (by omega)) ?_ (by decide)
  intro body c₉ h₉ home₉
  refine Within.bind (b := 24) (within_expect home₉) ?_ (by decide)
  intro close c₁₀ h₁₀ home₁₀
  cases countStmtOf counter start stop step body close.line with
  | ok s => exact within_here home₁₀
  | error e => exact within_error

theorem body_funcStmt (deep : 16 * c.size + 1 ≤ d + 1) :
    Within tokens (24 * c.size) (Body.funcStmt call c) (Body.funcStmt call' c)
      (funcStmt c) := by
  rw [funcStmt]
  refine Within.bind (b := 0) (within_expect home) ?_ (by decide)
  intro word c₁ h₁ home₁
  refine Within.bind (b := 1) (within_expect home₁) ?_ (by decide)
  intro name c₂ h₂ home₂
  refine Within.bind_more (b := 1) (within_expect home₂) ?_
  intro opening c₃ h₃ home₃
  refine Within.bind (b := 2) (good.ask (.params 0) 1 25 rfl rfl home₃ (by omega)) ?_ (by decide)
  intro ps c₄ h₄ home₄
  refine Within.bind_more (b := 2) (within_expect home₄) ?_
  intro closing c₅ h₅ home₅
  refine Within.bind (b := 0) (good.ask .block 15 26 rfl rfl home₅ (by omega)) ?_ (by decide)
  intro body c₆ h₆ home₆
  refine Within.bind (b := 24) (within_expect home₆) ?_ (by decide)
  intro close c₇ h₇ home₇
  exact within_here home₇

theorem body_stmts (deep : 16 * c.size + 14 ≤ d + 1) :
    Within tokens (24 * c.size + 24) (Body.stmts call c) (Body.stmts call' c)
      (stmts c) := by
  rw [stmts]
  simp only [Body.stmts]
  split
  · exact within_here home
  · have first := good.ask .stmt 13 22 rfl rfl home (by omega)
    refine Within.bind_more (b := 1) (first.mono (by omega)) ?_
    intro s c₁ h₁ home₁
    exact ((good.ask .stmts 14 25 rfl rfl home₁ (by omega)).map _).weaken

theorem body_block (deep : 16 * c.size + 15 ≤ d + 1) :
    Within tokens (24 * c.size + 25) (Body.block call c) (Body.block call' c)
      (block c) := by
  rw [block]
  refine Within.bind (b := 24) (good.ask .stmts 14 25 rfl rfl home (by omega)) ?_ (by decide)
  intro ss c₁ h₁ home₁
  cases c₁.previous? with
  | none => exact within_error
  | some t => exact within_here home₁

end Bodies

/-- Every rule ends in the depth that its rank and the tokens left allow, with the result of the
parser and after the same calls as in any greater depth. -/
theorem run_good (tokens : List Token) (depth more : Nat) :
    Good tokens depth (fun k c => run depth k c) (fun k c => run (depth + more) k c) := by
  induction depth with
  | zero =>
    intro β k c home deep
    have pos : 0 < k.rank := by
      cases k with
      | level n => exact Nat.add_pos_left (by decide) n
      | _ => exact Nat.succ_pos _
    omega
  | succ d good =>
    intro β k c home deep
    rw [Nat.add_right_comm]
    cases k with
    | level n =>
      exact ((body_level good home deep).add 1).mono (by simp only [Call.cost]; omega)
    | levelRest n left => exact (body_levelRest good home deep).add 1
    | unary => exact (body_unary good home deep).add 1
    | exponent => exact (body_exponent good home deep).add 1
    | exponentRest left => exact (body_exponentRest good home deep).add 1
    | primary => exact (body_primary good home deep).add 1
    | args => exact (body_args good home deep).add 1
    | params count => exact (body_params good home deep).add 1
    | exprAfter kind => exact (body_exprAfter good home deep).add 1
    | printRest ending => exact (body_printRest good home deep).add 1
    | retStmt => exact (body_retStmt good home deep).add 1
    | localStmt => exact (body_localStmt good home deep).add 1
    | plainStmt => exact (body_plainStmt good home deep).add 1
    | stmt => exact (body_stmt good home deep).add 1
    | branchStmt => exact (body_branchStmt good home deep).add 1
    | elseBlock => exact (body_elseBlock good home deep).add 1
    | loopStmt => exact (body_loopStmt good home deep).add 1
    | countStmt => exact (body_countStmt good home deep).add 1
    | funcStmt => exact (body_funcStmt good home deep).add 1
    | stmts => exact (body_stmts good home deep).add 1
    | block => exact (body_block good home deep).add 1

/-! ### Every rule ends -/

section Ends

variable {tokens : List Token} {α : Type} {c c' : Cursor}

theorem Call.rank_le (k : Call α) : k.rank ≤ 15 := by
  cases k with
  | level n => exact Nat.le_trans (Nat.add_le_add_left n.is_le 4) (by decide)
  | _ => exact Nat.le_of_ble_eq_true rfl

theorem Call.cost_le (k : Call α) : k.cost ≤ 26 := by
  cases k with
  | level n =>
    have known : n.val ≤ 7 := n.is_le
    simp only [Call.cost]
    omega
  | _ => exact Nat.le_of_ble_eq_true rfl

theorem Call.bound_le (k : Call α) (c : Cursor) : k.bound c ≤ c.size + 1 := by
  unfold Call.bound
  cases k.reads with
  | true => exact Nat.le_succ _
  | false => exact Nat.le_refl _

/-- A rule comes to the result of the parser in every depth that is great enough, always after the
same calls. -/
theorem run_of_deep (k : Call α) (home : c.Among tokens) : ∃ calls, calls ≤ 24 * c.size + k.cost ∧
    ∀ depth, 16 * c.size + k.rank ≤ depth → run depth k c = .ofParsed calls (k.parsed c) := by
  have within := fun more =>
    run_good tokens (16 * c.size + k.rank) more k c home (Nat.le_refl _)
  obtain ⟨calls, few, ran⟩ := (within 0).ofParsed
  refine ⟨calls, few, ?_⟩
  intro depth enough
  obtain ⟨more, rfl⟩ := Nat.exists_eq_add_of_le enough
  exact (within more).same.trans ran

theorem among_of_gives (k : Call α) (home : c.Among tokens) {a : α}
    (given : (k.parsed c).Gives a c') : c'.Among tokens :=
  (run_good tokens (16 * c.size + k.rank) 0 k c home (Nat.le_refl _)).among given

end Ends

/-- The parser ends on every list of tokens after at most 24 calls for each token and 26 more, which
are nested at most 16 deep for each token and 15 more; so does every rule at every place among the
tokens. A rule that gives a value has not gone back, nor past the end, and has gone on unless what
it reads may be missing or empty. -/
theorem rules_end_and_advance (tokens : List Token) :
    (∃ calls, calls ≤ 24 * tokens.length + 26 ∧ ∀ depth, 16 * tokens.length + 15 ≤ depth →
      run depth .block (.ofList tokens) = .ofParsed calls (program tokens)) ∧
    ∀ {α : Type} (k : Call α) (c : Cursor), c.Among tokens →
      (∃ calls, calls ≤ 24 * tokens.length + 26 ∧ ∀ depth, 16 * tokens.length + 15 ≤ depth →
        run depth k c = .ofParsed calls (k.parsed c)) ∧
      ∀ a c', (k.parsed c).Gives a c' → c'.Among tokens ∧ c'.position ≤ tokens.length ∧
        c.position ≤ c'.position ∧ (k.reads = true → c.position < c'.position) := by
  refine ⟨run_of_deep .block (Cursor.among_ofList tokens), ?_⟩
  intro α k c home
  have total := home.position_add_size
  constructor
  · have rank := k.rank_le
    have cost := k.cost_le
    obtain ⟨calls, few, ran⟩ := run_of_deep k home
    exact ⟨calls, by omega, fun depth enough => ran depth (by omega)⟩
  · intro a c' given
    have home' := among_of_gives k home given
    have total' := home'.position_add_size
    have less := given.size_lt
    refine ⟨home', by omega, ?_, ?_⟩
    · have bound := k.bound_le c
      omega
    · intro reads
      have less : c'.size < c.size := by rwa [Call.bound, reads] at less
      omega

end Parse

end ScriptLang
