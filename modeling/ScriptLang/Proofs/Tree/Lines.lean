import ScriptLang.Proofs.Tree.Everywhere

/-!
Trees up to the lines of their nodes and of their operators.
-/

namespace ScriptLang

/-- A token without its line. -/
def Token.unlined (t : Token) : Token := { t with line := 0 }

/-- A parameter without its line. -/
def Param.unlined (p : Param) : Param := { p with line := 0 }

mutual
/-- An expression without its lines. -/
def Expr.unlined : Expr → Expr
  | .integer value _ => .integer value 0
  | .real value _ => .real value 0
  | .bool value _ => .bool value 0
  | .text value _ => .text value 0
  | .unary op operand _ => .unary op.unlined operand.unlined 0
  | .binary op left right _ => .binary op.unlined left.unlined right.unlined 0
  | .logical op left right _ => .logical op.unlined left.unlined right.unlined 0
  | .group inner _ => .group inner.unlined 0
  | .name n _ => .name n 0
  | .call f args _ => .call f (Expr.unlinedAll args) 0

/-- Expressions without their lines. -/
def Expr.unlinedAll : List Expr → List Expr
  | [] => []
  | e :: es => e.unlined :: Expr.unlinedAll es
end

mutual
/-- A statement without its lines. -/
def Stmt.unlined : Stmt → Stmt
  | .print value ending _ => .print value.unlined ending 0
  | .branch test thenBlock elseBlock _ =>
    .branch test.unlined thenBlock.unlined (Block.unlined? elseBlock) 0
  | .loop test body _ => .loop test.unlined body.unlined 0
  | .assign target value _ => .assign target.unlined value.unlined 0
  | .assignLocal target value _ => .assignLocal target.unlined value.unlined 0
  | .count var _ start stop step body _ =>
    .count var 0 start.unlined stop.unlined (step.map Expr.unlined) body.unlined 0
  | .func name params body _ => .func name (params.map Param.unlined) body.unlined 0
  | .call f args _ => .call f (Expr.unlinedAll args) 0
  | .ret value _ => .ret value.unlined 0

/-- A block without its lines. -/
def Block.unlined : Block → Block
  | .mk ss _ => .mk (Stmt.unlinedAll ss) 0

/-- A block that may be missing, without its lines. -/
def Block.unlined? : Option Block → Option Block
  | none => none
  | some b => some b.unlined

/-- Statements without their lines. -/
def Stmt.unlinedAll : List Stmt → List Stmt
  | [] => []
  | s :: ss => s.unlined :: Stmt.unlinedAll ss
end

end ScriptLang
