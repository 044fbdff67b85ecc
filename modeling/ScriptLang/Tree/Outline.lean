import ScriptLang.Tree.Form

/-!
Programs and outlines of each other.

Every program has an outline. An outline that passed the checks of its nodes is a program again, if
its names and lists are such; a parameter standing alone as a statement does nothing in any engine
and is left out.
-/

namespace ScriptLang

mutual
/-- The outline of an expression. -/
def Expr.outline : Expr → Outline
  | .integer value line => .node .integer [.datum (.int value), .line line]
  | .real value line => .node .float [.datum (.float value), .line line]
  | .bool value line => .node .bool [.datum (.bool value), .line line]
  | .text value line => .node .string [.datum (.str value), .line line]
  | .unary op operand line => .node .unOp [.token op, operand.outline, .line line]
  | .binary op left right line =>
    .node .binOp [.token op, left.outline, right.outline, .line line]
  | .logical op left right line =>
    .node .logicalOp [.token op, left.outline, right.outline, .line line]
  | .group inner line => .node .grouping [inner.outline, .line line]
  | .name n line => .node .identifier [.datum (.str n), .line line]
  | .call n args line => .node .funcCall [.datum (.str n), .list (Expr.outlines args), .line line]

/-- The outlines of expressions in a row. -/
def Expr.outlines : List Expr → List Outline
  | [] => []
  | e :: es => e.outline :: Expr.outlines es
end

/-- The outline of a parameter. -/
def Param.outline (p : Param) : Outline :=
  .node .param [.datum (.str p.name), .line p.line]

mutual
/-- The outline of a statement. -/
def Stmt.outline : Stmt → Outline
  | .print value ending line => .node .printStmt [value.outline, .datum ending, .line line]
  | .branch test thenBlock elseBlock line =>
    .node .ifStmt [test.outline, thenBlock.outline, Block.optionOutline elseBlock, .line line]
  | .loop test body line => .node .whileStmt [test.outline, body.outline, .line line]
  | .assign target value line =>
    .node .assignment [target.outline, value.outline, .line line]
  | .assignLocal target value line =>
    .node .localAssignment [target.outline, value.outline, .line line]
  | .count var varLine start stop step body line =>
    .node .forStmt [(Expr.name var varLine).outline, start.outline, stop.outline,
      (step.map Expr.outline).getD (.datum .none), body.outline, .line line]
  | .func name params body line =>
    .node .funcDecl [.datum (.str name), .list (params.map Param.outline), body.outline,
      .line line]
  | .call name args line => .node .funcCallStmt [(Expr.call name args line).outline]
  | .ret value line => .node .retStmt [value.outline, .line line]

/-- The outline of a block. -/
def Block.outline : Block → Outline
  | .mk stmts line => .node .stmts [.list (Stmt.outlines stmts), .line line]

/-- The outline of a block that may be missing. -/
def Block.optionOutline : Option Block → Outline
  | none => .datum .none
  | some b => b.outline

/-- The outlines of statements in a row. -/
def Stmt.outlines : List Stmt → List Outline
  | [] => []
  | s :: ss => s.outline :: Stmt.outlines ss
end

namespace Outline

/-- The line that a field holds. -/
def lineOf : Outline → Line
  | .line n => n
  | .datum (.int i) => i
  | _ => 0

/-- The text that a field holds; any other datum stands for its own text. -/
def textOf (o : Outline) : String :=
  o.plain

mutual
/-- The expression that an outline writes down. -/
def toExpr? : Outline → Option Expr
  | .node .integer [.datum (.int i), ln] => some (.integer i ln.lineOf)
  | .node .integer [.line i, ln] => some (.integer i ln.lineOf)
  | .node .integer [.datum (.bool b), ln] => some (.integer (if b then 1 else 0) ln.lineOf)
  | .node .float [.datum (.float x), ln] => some (.real x ln.lineOf)
  | .node .bool [.datum (.bool b), ln] => some (.bool b ln.lineOf)
  | .node .string [.datum (.str s), ln] => some (.text s ln.lineOf)
  | .node .unOp [.token op, operand, ln] =>
    operand.toExpr?.map fun e => .unary op e ln.lineOf
  | .node .binOp [.token op, left, right, ln] =>
    match left.toExpr?, right.toExpr? with
    | some l, some r => some (.binary op l r ln.lineOf)
    | _, _ => none
  | .node .logicalOp [.token op, left, right, ln] =>
    match left.toExpr?, right.toExpr? with
    | some l, some r => some (.logical op l r ln.lineOf)
    | _, _ => none
  | .node .grouping [inner, ln] => inner.toExpr?.map fun e => .group e ln.lineOf
  | .node .identifier [n, ln] => some (.name n.textOf ln.lineOf)
  | .node .funcCall [n, .list args, ln] =>
    (toExprs? args).map fun es => .call n.textOf es ln.lineOf
  | .node .funcCall [n, _, ln] => some (.call n.textOf [] ln.lineOf)
  | _ => none

/-- The expressions that outlines in a row write down. -/
def toExprs? : List Outline → Option (List Expr)
  | [] => some []
  | o :: os =>
    match o.toExpr?, toExprs? os with
    | some e, some es => some (e :: es)
    | _, _ => none
end

/-- The parameter that an outline writes down. -/
def toParam? : Outline → Option Param
  | .node .param [n, ln] => some ⟨n.textOf, ln.lineOf⟩
  | _ => none

/-- The datum of a field. -/
def datumOf : Outline → Datum
  | .datum d => d
  | .line n => .int n
  | o => .str o.shown

mutual
/-- The statement that an outline writes down. -/
def toStmt? : Outline → Option Stmt
  | .node .printStmt [value, ending, ln] =>
    value.toExpr?.map fun e => .print e ending.datumOf ln.lineOf
  | .node .ifStmt [test, thenBlock, elseBlock, ln] =>
    match test.toExpr?, thenBlock.toBlock?, elseBlock.toOptionalBlock? with
    | some t, some b, some e => some (.branch t b e ln.lineOf)
    | _, _, _ => none
  | .node .whileStmt [test, body, ln] =>
    match test.toExpr?, body.toBlock? with
    | some t, some b => some (.loop t b ln.lineOf)
    | _, _ => none
  | .node .assignment [target, value, ln] =>
    match target.toExpr?, value.toExpr? with
    | some t, some v => some (.assign t v ln.lineOf)
    | _, _ => none
  | .node .localAssignment [target, value, ln] =>
    match target.toExpr?, value.toExpr? with
    | some t, some v => some (.assignLocal t v ln.lineOf)
    | _, _ => none
  | .node .forStmt [.node .identifier [var, varLine], start, stop, step, body, ln] =>
    match start.toExpr?, stop.toExpr?, body.toBlock? with
    | some a, some b, some c =>
      some (.count var.textOf varLine.lineOf a b step.toExpr? c ln.lineOf)
    | _, _, _ => none
  | .node .funcDecl [n, .list params, body, ln] =>
    match params.mapM toParam?, body.toBlock? with
    | some ps, some b => some (.func n.textOf ps b ln.lineOf)
    | some ps, none => some (.func n.textOf ps (.mk [] 0) ln.lineOf)
    | none, _ => none
  | .node .funcCallStmt [call] =>
    match call.toExpr? with
    | some (.call n args ln) => some (.call n args ln)
    | _ => none
  | .node .retStmt [value, ln] => value.toExpr?.map fun e => .ret e ln.lineOf
  | _ => none

/-- The block that an outline writes down. -/
def toBlock? : Outline → Option Block
  | .node .stmts [.list items, ln] => some (.mk (toStmts items) ln.lineOf)
  | .node .stmts [_, ln] => some (.mk [] ln.lineOf)
  | _ => none

/-- The block that an outline writes down, or that it leaves out. -/
def toOptionalBlock? : Outline → Option (Option Block)
  | .datum .none => some none
  | .node .stmts [.list items, ln] => some (some (.mk (toStmts items) ln.lineOf))
  | .node .stmts [_, ln] => some (some (.mk [] ln.lineOf))
  | _ => none

/-- The statements that outlines in a row write down. -/
def toStmts : List Outline → List Stmt
  | [] => []
  | o :: os =>
    match o.toStmt? with
    | some s => s :: toStmts os
    | none => toStmts os
end

/-- The program that an outline writes down. -/
def toProgram (o : Outline) : Program :=
  match o.toExpr?, o.toStmt?, o.toBlock? with
  | some e, _, _ => .expr e
  | _, some s, _ => .stmt s
  | _, _, some b => .block b
  | _, _, _ => .inert

end Outline

end ScriptLang
