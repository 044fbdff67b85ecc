import ScriptLang.Parse.Stmt

/-!
The rules of the grammar, each to be started at any place.

A rule yields an outline: of a token, a truth value, nothing, a tree or a list of trees.
-/

namespace ScriptLang.Parse

/-- Rules of the grammar and moves of the cursor. -/
inductive Rule where
  | advance
  | peek
  | previous
  | nextIs (kind : Kind)
  | accept (kind : Kind)
  | expect (kind : Kind)
  | primary
  | exponent
  | unary
  /-- Operators of the first `n` levels. -/
  | level (n : Nat)
  | expr
  | args
  | params
  | printStmt (ending : Datum)
  | branchStmt
  | loopStmt
  | countStmt
  | funcStmt
  | retStmt
  | localStmt
  | stmt
  | block

/-- The outline that a rule yields, and the place after it. -/
abbrev Reading := Except ParseError Outline × Cursor

namespace Reading

/-- A result as an outline. -/
def ofParsed {α : Type} {n : Nat} (f : α → Outline) : Parsed α n → Reading
  | .ok a c _ => (.ok (f a), c)
  | .error e c => (.error e, c)

/-- A token that may be missing. -/
def ofToken? (c : Cursor) : Option Token → Reading
  | some t => (.ok (.token t), c)
  | none => (.error .noToken, c)

/-- A truth value. -/
def ofBool (b : Bool) (c : Cursor) : Reading := (.ok (.datum (.bool b)), c)

end Reading

/-- Applies a rule at a place. -/
def applyRule (c : Cursor) : Rule → Reading
  | .advance =>
    match c.ahead with
    | t :: rest => (.ok (.token t), c.past t rest)
    | [] => (.error .noToken, c)
  | .peek => .ofToken? c c.peek?
  | .previous => .ofToken? c c.previous?
  | .nextIs kind => .ofBool (c.nextIs kind) c
  | .accept kind =>
    match c.ahead with
    | t :: rest => if t.kind == kind then .ofBool true (c.past t rest) else .ofBool false c
    | [] => .ofBool false c
  | .expect kind => .ofParsed .token (c.expect kind)
  | .primary => .ofParsed Expr.outline (primary c)
  | .exponent => .ofParsed Expr.outline (exponent c)
  | .unary => .ofParsed Expr.outline (unary c)
  | .level n => .ofParsed Expr.outline (level n c)
  | .expr => .ofParsed Expr.outline (expr c)
  | .args => .ofParsed (fun es => .list (Expr.outlines es)) (args c)
  | .params => .ofParsed (fun (ps : List Param) => .list (ps.map Param.outline)) (params 0 c)
  | .printStmt ending =>
    match c.ahead with
    | t :: rest =>
      if t.kind == .kwPrint || t.kind == .kwPrintln then
        .ofParsed Stmt.outline (printRest ending (c.past t rest))
      else (.ok (.datum .none), c)
    | [] => (.ok (.datum .none), c)
  | .branchStmt => .ofParsed Stmt.outline (branchStmt c)
  | .loopStmt => .ofParsed Stmt.outline (loopStmt c)
  | .countStmt => .ofParsed Stmt.outline (countStmt c)
  | .funcStmt => .ofParsed Stmt.outline (funcStmt c)
  | .retStmt => .ofParsed Stmt.outline (retStmt c)
  | .localStmt => .ofParsed Stmt.outline (localStmt c)
  | .stmt => .ofParsed Stmt.outline (stmt c)
  | .block => .ofParsed Block.outline (block c)

end ScriptLang.Parse
