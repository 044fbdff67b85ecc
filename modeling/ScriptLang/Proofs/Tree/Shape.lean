import ScriptLang.Proofs.Tree.Everywhere

/-!
Shapes of programs: what kinds of statements stand where.
-/

namespace ScriptLang

/-- An expression is a name. -/
def Expr.isName : Expr → Bool
  | .name _ _ => true
  | _ => false

/-- An expression has an operator outside parentheses. -/
def Expr.isOperation : Expr → Bool
  | .unary _ _ _ | .binary _ _ _ _ | .logical _ _ _ _ => true
  | _ => false

/-- A statement assigns to nothing but a name. -/
def Stmt.assignsName : Stmt → Bool
  | .assign target _ _ | .assignLocal target _ _ => target.isName
  | _ => true

/-- A statement declares a function. -/
def Stmt.isFunc : Stmt → Bool
  | .func _ _ _ _ => true
  | _ => false

/-- A statement returns a value. -/
def Stmt.isRet : Stmt → Bool
  | .ret _ _ => true
  | _ => false

/-- A statement always makes a new variable. -/
def Stmt.isLocal : Stmt → Bool
  | .assignLocal _ _ _ => true
  | _ => false

/-- An expression is an `and` or an `or`. -/
def Expr.isLogical : Expr → Bool
  | .logical _ _ _ _ => true
  | _ => false

/-- A statement is a counted loop. -/
def Stmt.isCount : Stmt → Bool
  | .count _ _ _ _ _ _ _ => true
  | _ => false

/-- A statement prints nothing or a line break after a value. -/
def Stmt.endsPlainly : Stmt → Bool
  | .print _ (.str s) _ => s == "" || s == "\n"
  | .print _ _ _ => false
  | _ => true

/-- The body of a loop makes no variable with `local`, except in inner blocks. -/
def Stmt.loopsPlainly : Stmt → Bool
  | .loop _ body _ | .count _ _ _ _ _ body _ => body.stmts.all fun s => !s.isLocal
  | _ => true

/-- A test holds of every statement inside a statement, not of the statement itself. -/
def Stmt.allInside (p : Stmt → Bool) : Stmt → Bool
  | .branch _ thenBlock elseBlock _ => thenBlock.all p && Block.allElse p elseBlock
  | .loop _ body _ | .count _ _ _ _ _ body _ | .func _ _ body _ => body.all p
  | _ => true

/-- The functions of a program are declared at top level. -/
def Block.funcsOnTop (b : Block) : Bool :=
  b.stmts.all (Stmt.allInside fun s => !s.isFunc)

/-- A program returns values only from functions. -/
def Block.retsInFuncs (b : Block) : Bool :=
  b.stmts.all fun s => s.isFunc || s.all fun s => !s.isRet

/-- A program uses `local` only as a statement of the block of a branch or of a function. -/
def Block.localsInBlocks (b : Block) : Bool :=
  (b.stmts.all fun s => !s.isLocal) && b.all Stmt.loopsPlainly

/-- The name of the function that a statement declares. -/
def Stmt.funcName? : Stmt → Option String
  | .func name _ _ _ => some name
  | _ => none

/-- The names of the functions that a program declares at top level. -/
def Block.funcNames (b : Block) : List String :=
  b.stmts.filterMap Stmt.funcName?

/-- The name that a statement itself assigns to, other than with `local`. -/
def Stmt.sets? : Stmt → Option String
  | .assign target _ _ => target.target?
  | _ => none

mutual
/-- The names that a statement or a statement inside it assigns to, other than with `local`. -/
def Stmt.assigned : Stmt → List String
  | .assign target _ _ => target.target?.toList
  | .branch _ thenBlock elseBlock _ => thenBlock.assigned ++ Block.assignedElse elseBlock
  | .loop _ body _ | .count _ _ _ _ _ body _ | .func _ _ body _ => body.assigned
  | .print _ _ _ | .assignLocal _ _ _ | .call _ _ _ | .ret _ _ => []

def Block.assigned : Block → List String
  | .mk ss _ => Stmt.assignedBy ss

def Block.assignedElse : Option Block → List String
  | none => []
  | some b => b.assigned

def Stmt.assignedBy : List Stmt → List String
  | [] => []
  | s :: ss => s.assigned ++ Stmt.assignedBy ss
end

theorem Block.assigned_eq (b : Block) : b.assigned = Stmt.assignedBy b.stmts := by
  cases b
  rfl

/-- What a function assigns to is a parameter, or is assigned at top level before the function or
nowhere at top level. `before` are the names assigned so far, `top` all of them. -/
def Stmt.settledIn (top before : List String) : Stmt → Bool
  | .func _ params body _ => body.assigned.all fun n =>
    !top.contains n || (params.map Param.name).contains n || before.contains n
  | _ => true

/-- All functions among some statements at top level are settled. -/
def Stmt.settledBy (top before : List String) : List Stmt → Bool
  | [] => true
  | s :: ss => s.settledIn top before && settledBy top (before ++ s.sets?.toList) ss

/-- A function that assigns to a variable of the outermost scope comes after the variable. -/
def Block.settled (b : Block) : Bool :=
  Stmt.settledBy (b.stmts.filterMap Stmt.sets?) [] b.stmts

mutual
/-- A statement without the statements of a kind inside it. -/
def Stmt.without (drop : Stmt → Bool) : Stmt → Stmt
  | .branch test thenBlock elseBlock line =>
    .branch test (thenBlock.without drop) (Block.withoutElse drop elseBlock) line
  | .loop test body line => .loop test (body.without drop) line
  | .count var varLine start stop step body line =>
    .count var varLine start stop step (body.without drop) line
  | .func name params body line => .func name params (body.without drop) line
  | s => s

def Block.without (drop : Stmt → Bool) : Block → Block
  | .mk ss line => .mk (Stmt.withoutAll drop ss) line

def Block.withoutElse (drop : Stmt → Bool) : Option Block → Option Block
  | none => none
  | some b => some (b.without drop)

/-- Statements without those of a kind, at any depth. -/
def Stmt.withoutAll (drop : Stmt → Bool) : List Stmt → List Stmt
  | [] => []
  | s :: ss => if drop s then Stmt.withoutAll drop ss else s.without drop :: Stmt.withoutAll drop ss
end

theorem Stmt.all_eq (p : Stmt → Bool) (s : Stmt) : s.all p = (p s && s.allInside p) := by
  cases s <;> simp [Stmt.all, Stmt.allInside, Bool.and_assoc]

end ScriptLang
