import ScriptLang.Tree.Basic

/-!
Declarations of functions, and calls with the declaration that is in scope.

A function is in scope from its declaration to the end of the block that it is declared in, its own
body included; an inner declaration hides an outer one. Declarations are numbered in the order in
which they stand. Counted loops are left out, since they are not compiled.
-/

namespace ScriptLang

/-- The functions in scope, innermost first, with the numbers of their declarations. -/
abbrev Visible := List (String × Nat)

mutual
/-- The names of the functions that are declared in a statement, at any depth. -/
def Stmt.declared : Stmt → List String
  | .func name _ body _ => name :: body.declared
  | .branch _ thenBlock elseBlock _ => thenBlock.declared ++ Block.declaredElse elseBlock
  | .loop _ body _ => body.declared
  | _ => []

def Block.declared : Block → List String
  | .mk ss _ => Stmt.declaredBy ss

def Block.declaredElse : Option Block → List String
  | none => []
  | some b => b.declared

def Stmt.declaredBy : List Stmt → List String
  | [] => []
  | s :: ss => s.declared ++ Stmt.declaredBy ss
end

theorem Block.declared_eq (b : Block) : b.declared = Stmt.declaredBy b.stmts := by
  cases b
  rfl

mutual
/-- The calls in an expression in the order of evaluation, each with the number of the declaration
that is in scope under its name. -/
def Expr.calls (scope : Visible) : Expr → List (String × Option Nat)
  | .unary _ operand _ => operand.calls scope
  | .binary _ left right _ => left.calls scope ++ right.calls scope
  | .logical _ left right _ => left.calls scope ++ right.calls scope
  | .group inner _ => inner.calls scope
  | .call n args _ => Expr.callsOf scope args ++ [(n, scope.lookup n)]
  | _ => []

def Expr.callsOf (scope : Visible) : List Expr → List (String × Option Nat)
  | [] => []
  | e :: es => e.calls scope ++ Expr.callsOf scope es
end

/-- The scope after a statement. The first declaration in the statement has number `k`. -/
def Stmt.visible (scope : Visible) (k : Nat) : Stmt → Visible
  | .func name _ _ _ => (name, k) :: scope
  | _ => scope

mutual
/-- The calls in a statement in order. The first declaration in the statement has number `k`. -/
def Stmt.calls (scope : Visible) (k : Nat) : Stmt → List (String × Option Nat)
  | .print value _ _ => value.calls scope
  | .assign _ value _ => value.calls scope
  | .assignLocal _ value _ => value.calls scope
  | .ret value _ => value.calls scope
  | .call n args line => (Expr.call n args line).calls scope
  | .branch test thenBlock elseBlock _ =>
    test.calls scope ++ thenBlock.calls scope k ++
      Block.callsElse scope (k + thenBlock.declared.length) elseBlock
  | .loop test body _ => test.calls scope ++ body.calls scope k
  | .count .. => []
  | .func name _ body _ => body.calls ((name, k) :: scope) (k + 1)

def Block.calls (scope : Visible) (k : Nat) : Block → List (String × Option Nat)
  | .mk ss _ => Stmt.callsBy scope k ss

def Block.callsElse (scope : Visible) (k : Nat) : Option Block → List (String × Option Nat)
  | none => []
  | some b => b.calls scope k

def Stmt.callsBy (scope : Visible) (k : Nat) : List Stmt → List (String × Option Nat)
  | [] => []
  | s :: ss =>
    s.calls scope k ++ Stmt.callsBy (s.visible scope k) (k + s.declared.length) ss
end

theorem Block.calls_eq (scope : Visible) (k : Nat) (b : Block) :
    b.calls scope k = Stmt.callsBy scope k b.stmts := by
  cases b
  rfl

end ScriptLang
