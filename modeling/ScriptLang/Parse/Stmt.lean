import ScriptLang.Parse.Expr

/-!
Parsing statements.

The first token of a statement decides its form; what starts no other statement is an assignment or
a call. A block ends before `else`, before `end` or with the tokens. Statements follow each other
without a separator.
-/

namespace ScriptLang.Parse

/-- The most parameters a function may have. -/
def maxParams : Nat := 255

/-- The parameters of a function up to the closing parenthesis; `count` of them came before. -/
def params (count : Nat) (c : Cursor) : Parsed (List Param) (c.size + 1) :=
  if c.nextIs .rparen then .ok [] c (Cursor.size_lt_succ c)
  else
    (c.expect .identifier).bind fun t c₁ h₁ =>
      if maxParams ≤ count then .error (.tooManyParams t.line) c₁
      else if c₁.nextIs .rparen then .ok [⟨t.lexeme, t.line⟩] c₁ (Cursor.lt_succ_of_lt h₁)
      else
        (c₁.expect .comma).bind fun _ c₂ h₂ =>
          have lt := Cursor.lt_trans h₁ h₂
          ((params (count + 1) c₂).map (⟨t.lexeme, t.line⟩ :: ·)).weaken (Cursor.succ_le_succ lt)
termination_by c.size

/-- The rest of a print statement, whose first word has been read. -/
def printRest (ending : Datum) (c : Cursor) : Parsed Stmt c.size :=
  (expr c).bind fun value c₁ h₁ => .ok (.print value ending c₁.lastLine) c₁ h₁

/-- `ret` and a value. -/
def retStmt (c : Cursor) : Parsed Stmt c.size :=
  (c.expect .kwRet).bind fun _ c₁ h₁ =>
    (expr c₁).bind fun value c₂ h₂ => .ok (.ret value c₂.lastLine) c₂ (by omega)

/-- `local` and an assignment. -/
def localStmt (c : Cursor) : Parsed Stmt c.size :=
  (c.expect .kwLocal).bind fun _ c₁ h₁ =>
    (expr c₁).bind fun target c₂ h₂ =>
      (c₂.expect .assign).bind fun _ c₃ h₃ =>
        (expr c₃).bind fun value c₄ h₄ =>
          .ok (.assignLocal target value c₄.lastLine) c₄ (by omega)

/-- A call that stands as a statement. -/
def callStmt (e : Expr) : Except ParseError Stmt :=
  match e with
  | .call name args line => .ok (.call name args line)
  | _ => .error (.notCall e)

/-- The expression after a token of the given kind, if such a token follows. -/
def exprAfter? (kind : Kind) (c : Cursor) : Parsed (Option Expr) (c.size + 1) :=
  match h : c.ahead with
  | [] => .ok none c (Cursor.size_lt_succ c)
  | t :: rest =>
    if t.kind == kind then ((expr (c.past t rest)).map some).weaken (Cursor.size_past_le h)
    else .ok none c (Cursor.size_lt_succ c)

/-- An assignment or a call. -/
def plainStmt (c : Cursor) : Parsed Stmt c.size :=
  (expr c).bind fun left c₁ h₁ =>
    (exprAfter? .assign c₁).bind fun value c₂ h₂ =>
      match value with
      | some value => .ok (.assign left value c₂.lastLine) c₂ (by omega)
      | none =>
        match callStmt left with
        | .ok s => .ok s c₂ (by omega)
        | .error e => .error e c₂

/-- A block ends here. -/
def endsBlock (c : Cursor) : Bool :=
  c.ahead.isEmpty || c.nextIs .kwElse || c.nextIs .kwEnd

/-- The counted loop with the given parts, if its counter is a name. -/
def countStmtOf (counter start stop : Expr) (step : Option Expr) (body : Block) (line : Line) :
    Except ParseError Stmt :=
  match counter with
  | .name var varLine => .ok (.count var varLine start stop step body line)
  | _ => .error (.notName counter)

mutual
/-- A statement. -/
def stmt (c : Cursor) : Parsed Stmt c.size :=
  match h : c.ahead with
  | [] => .error .noToken c
  | t :: rest =>
    have lt := Cursor.size_past_lt h
    match t.kind with
    | .kwPrint => (printRest (.str "") (c.past t rest)).weaken (by omega)
    | .kwPrintln => (printRest (.str "\n") (c.past t rest)).weaken (by omega)
    | .kwIf => branchStmt c
    | .kwWhile => loopStmt c
    | .kwFor => countStmt c
    | .kwFunc => funcStmt c
    | .kwRet => retStmt c
    | .kwLocal => localStmt c
    | _ => plainStmt c
termination_by (c.size, 1)

/-- `if`, a test, `then`, a block, perhaps `else` and a block, `end`. -/
def branchStmt (c : Cursor) : Parsed Stmt c.size :=
  (c.expect .kwIf).bind fun _ c₁ h₁ =>
    (expr c₁).bind fun test c₂ h₂ =>
      (c₂.expect .kwThen).bind fun _ c₃ h₃ =>
        (block c₃).bind fun thenBlock c₄ h₄ =>
          (elseBlock? c₄).bind fun elseBlock c₅ h₅ =>
            (c₅.expect .kwEnd).bind fun close c₆ h₆ =>
              .ok (.branch test thenBlock elseBlock close.line) c₆ (by omega)
termination_by (c.size, 0)

/-- The block after `else`, if one follows. -/
def elseBlock? (c : Cursor) : Parsed (Option Block) (c.size + 1) :=
  match h : c.ahead with
  | [] => .ok none c (Nat.lt_succ_self _)
  | t :: rest =>
    have lt := Cursor.size_past_lt h
    if t.kind == .kwElse then ((block (c.past t rest)).map some).weaken (by omega)
    else .ok none c (Nat.lt_succ_self _)
termination_by (c.size, 0)

/-- `while`, a test, `do`, a block, `end`. -/
def loopStmt (c : Cursor) : Parsed Stmt c.size :=
  (c.expect .kwWhile).bind fun _ c₁ h₁ =>
    (expr c₁).bind fun test c₂ h₂ =>
      (c₂.expect .kwDo).bind fun _ c₃ h₃ =>
        (block c₃).bind fun body c₄ h₄ =>
          (c₄.expect .kwEnd).bind fun close c₅ h₅ =>
            .ok (.loop test body close.line) c₅ (by omega)
termination_by (c.size, 0)

/-- `for`, a name, `:=`, a start, a comma, an end, perhaps a comma and a step, `do`, a block,
`end`. That the counter is a name is checked last. -/
def countStmt (c : Cursor) : Parsed Stmt c.size :=
  (c.expect .kwFor).bind fun _ c₁ h₁ =>
    (primary c₁).bind fun counter c₂ h₂ =>
      (c₂.expect .assign).bind fun _ c₃ h₃ =>
        (expr c₃).bind fun start c₄ h₄ =>
          (c₄.expect .comma).bind fun _ c₅ h₅ =>
            (expr c₅).bind fun stop c₆ h₆ =>
              (exprAfter? .comma c₆).bind fun step c₇ h₇ =>
                (c₇.expect .kwDo).bind fun _ c₈ h₈ =>
                  (block c₈).bind fun body c₉ h₉ =>
                    (c₉.expect .kwEnd).bind fun close c₁₀ h₁₀ =>
                      match countStmtOf counter start stop step body close.line with
                      | .ok s => .ok s c₁₀ (by omega)
                      | .error e => .error e c₁₀
termination_by (c.size, 0)

/-- `func`, a name, parameters in parentheses, a block, `end`. -/
def funcStmt (c : Cursor) : Parsed Stmt c.size :=
  (c.expect .kwFunc).bind fun _ c₁ h₁ =>
    (c₁.expect .identifier).bind fun name c₂ h₂ =>
      (c₂.expect .lparen).bind fun _ c₃ h₃ =>
        (params 0 c₃).bind fun ps c₄ h₄ =>
          (c₄.expect .rparen).bind fun _ c₅ h₅ =>
            (block c₅).bind fun body c₆ h₆ =>
              (c₆.expect .kwEnd).bind fun _ c₇ h₇ =>
                .ok (.func name.lexeme ps body name.line) c₇ (by omega)
termination_by (c.size, 0)

/-- The statements up to the end of a block. -/
def stmts (c : Cursor) : Parsed (List Stmt) (c.size + 1) :=
  if endsBlock c then .ok [] c (Cursor.size_lt_succ c)
  else (stmt c).bind fun s c₁ h₁ => ((stmts c₁).map (s :: ·)).weaken (Cursor.succ_le_succ h₁)
termination_by (c.size, 2)

/-- A block. Its line is that of the token read last, so an empty list of tokens has none. -/
def block (c : Cursor) : Parsed Block (c.size + 1) :=
  (stmts c).bind fun ss c₁ h₁ =>
    match c₁.previous? with
    | none => .error .noToken c₁
    | some t => .ok (.mk ss t.line) c₁ h₁
termination_by (c.size, 3)
end

/-- Parses a list of tokens as a program. -/
def program (tokens : List Token) : Parsed Block (tokens.length + 1) :=
  block (Cursor.ofList tokens)

end ScriptLang.Parse
