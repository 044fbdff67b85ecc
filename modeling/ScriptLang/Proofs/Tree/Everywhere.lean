import ScriptLang.Tree.Basic

/-!
Tests of every node of a tree.

`Expr.all` tests an expression and all expressions inside it, `Stmt.all` and `Block.all` every
statement at any depth. The lemmas open a test one node at a time, so that a proof by cases on a
statement finds the tests of its parts as hypotheses.
-/

namespace ScriptLang

mutual
/-- A test holds of an expression and of all expressions inside it. -/
def Expr.all (p : Expr → Bool) : Expr → Bool
  | .unary op operand line => p (.unary op operand line) && operand.all p
  | .binary op left right line => p (.binary op left right line) && left.all p && right.all p
  | .logical op left right line => p (.logical op left right line) && left.all p && right.all p
  | .group inner line => p (.group inner line) && inner.all p
  | .call f args line => p (.call f args line) && Expr.allOf p args
  | e => p e

/-- A test holds of some expressions and of all expressions inside them. -/
def Expr.allOf (p : Expr → Bool) : List Expr → Bool
  | [] => true
  | e :: es => e.all p && Expr.allOf p es
end

/-- The expressions that are parts of a statement itself, not of the statements inside it. -/
def Stmt.exprs : Stmt → List Expr
  | .print value _ _ => [value]
  | .branch test _ _ _ => [test]
  | .loop test _ _ => [test]
  | .assign target value _ => [target, value]
  | .assignLocal target value _ => [target, value]
  | .count _ _ start stop step _ _ => start :: stop :: step.toList
  | .func _ _ _ _ => []
  | .call name args line => [.call name args line]
  | .ret value _ => [value]

/-- A test holds of every expression of a statement itself. -/
def Stmt.exprsAll (p : Expr → Bool) (s : Stmt) : Bool :=
  s.exprs.all (Expr.all p)

mutual
/-- A test holds of a statement and of all statements inside it. -/
def Stmt.all (p : Stmt → Bool) : Stmt → Bool
  | .branch test thenBlock elseBlock line =>
    p (.branch test thenBlock elseBlock line) && thenBlock.all p && Block.allElse p elseBlock
  | .loop test body line => p (.loop test body line) && body.all p
  | .count var varLine start stop step body line =>
    p (.count var varLine start stop step body line) && body.all p
  | .func name params body line => p (.func name params body line) && body.all p
  | s => p s

/-- A test holds of all statements of a block, at any depth. -/
def Block.all (p : Stmt → Bool) : Block → Bool
  | .mk ss _ => Stmt.allOf p ss

/-- A test holds of all statements of a block that may be missing. -/
def Block.allElse (p : Stmt → Bool) : Option Block → Bool
  | none => true
  | some b => b.all p

/-- A test holds of some statements and of all statements inside them. -/
def Stmt.allOf (p : Stmt → Bool) : List Stmt → Bool
  | [] => true
  | s :: ss => s.all p && Stmt.allOf p ss
end

/-- A test holds of every expression of a block, at any depth. -/
def Block.allExprs (p : Expr → Bool) (b : Block) : Bool :=
  b.all (Stmt.exprsAll p)

theorem Stmt.allOf_iff {p : Stmt → Bool} {ss : List Stmt} :
    Stmt.allOf p ss = true ↔ ∀ s ∈ ss, s.all p = true := by
  induction ss with
  | nil => simp [Stmt.allOf]
  | cons s ss ih => simp [Stmt.allOf, ih]

theorem Block.all_eq (p : Stmt → Bool) (b : Block) : b.all p = Stmt.allOf p b.stmts := by
  cases b
  rfl

theorem Block.all_iff {p : Stmt → Bool} {b : Block} :
    b.all p = true ↔ ∀ s ∈ b.stmts, s.all p = true := by
  cases b with
  | mk ss line => simp [Block.all, Block.stmts, Stmt.allOf_iff]

theorem Stmt.holds_of_all {p : Stmt → Bool} {s : Stmt} (h : s.all p = true) : p s = true := by
  cases s <;> simp_all [Stmt.all]

mutual
theorem Stmt.all_and (p q : Stmt → Bool) (s : Stmt) :
    s.all (fun s => p s && q s) = (s.all p && s.all q) := by
  match s with
  | .branch test thenBlock elseBlock line =>
    simp only [Stmt.all, Block.all_and p q thenBlock, Block.allElse_and p q elseBlock]
    ac_rfl
  | .loop test body line | .count var varLine start stop step body line
  | .func name params body line =>
    simp only [Stmt.all, Block.all_and p q body]
    ac_rfl
  | .print .. | .assign .. | .assignLocal .. | .call .. | .ret .. => rfl

theorem Block.all_and (p q : Stmt → Bool) (b : Block) :
    b.all (fun s => p s && q s) = (b.all p && b.all q) := by
  match b with
  | .mk ss line => exact Stmt.allOf_and p q ss

theorem Block.allElse_and (p q : Stmt → Bool) (o : Option Block) :
    Block.allElse (fun s => p s && q s) o = (Block.allElse p o && Block.allElse q o) := by
  match o with
  | none => rfl
  | some b => exact Block.all_and p q b

theorem Stmt.allOf_and (p q : Stmt → Bool) (ss : List Stmt) :
    Stmt.allOf (fun s => p s && q s) ss = (Stmt.allOf p ss && Stmt.allOf q ss) := by
  match ss with
  | [] => rfl
  | s :: ss =>
    simp only [Stmt.allOf, Stmt.all_and p q s, Stmt.allOf_and p q ss]
    ac_rfl
end

end ScriptLang
