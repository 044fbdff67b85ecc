import ScriptLang.Datum.Basic
import ScriptLang.Token.Basic

/-!
Programs as trees.

Expressions have values and statements have effects. Every node knows the line it is reported on;
operators keep the token they were written with.
-/

namespace ScriptLang

/-- Expressions. -/
inductive Expr where
  | integer (value : Int) (line : Line)
  | real (value : Float) (line : Line)
  | bool (value : Bool) (line : Line)
  | text (value : String) (line : Line)
  | unary (op : Token) (operand : Expr) (line : Line)
  | binary (op : Token) (left right : Expr) (line : Line)
  /-- `and` and `or`. -/
  | logical (op : Token) (left right : Expr) (line : Line)
  /-- An expression in parentheses. -/
  | group (inner : Expr) (line : Line)
  | name (name : String) (line : Line)
  | call (name : String) (args : List Expr) (line : Line)
  deriving Inhabited

/-- A parameter of a function. -/
structure Param where
  name : String
  line : Line
  deriving DecidableEq, Repr, Inhabited

mutual
/-- Statements. -/
inductive Stmt where
  /-- Prints a value and then `ending`, which is a line break if it is nothing. -/
  | print (value : Expr) (ending : Datum) (line : Line)
  | branch (test : Expr) (thenBlock : Block) (elseBlock : Option Block) (line : Line)
  | loop (test : Expr) (body : Block) (line : Line)
  | assign (target value : Expr) (line : Line)
  /-- An assignment that always makes a new variable. -/
  | assignLocal (target value : Expr) (line : Line)
  /-- A loop that counts in the variable `var`. -/
  | count (var : String) (varLine : Line) (start stop : Expr) (step : Option Expr) (body : Block)
      (line : Line)
  | func (name : String) (params : List Param) (body : Block) (line : Line)
  | call (name : String) (args : List Expr) (line : Line)
  | ret (value : Expr) (line : Line)

/-- Statements in a row. -/
inductive Block where
  | mk (stmts : List Stmt) (line : Line)
end

instance : Inhabited Block := ⟨.mk [] 0⟩

instance : Inhabited Stmt := ⟨.ret default 0⟩

namespace Block

/-- The statements of a block. -/
def stmts : Block → List Stmt
  | .mk stmts _ => stmts

/-- The line of a block. -/
def line : Block → Line
  | .mk _ line => line

end Block

/-- The name under which a value can be stored: that of a variable, or of the function in a
call. -/
def Expr.target? : Expr → Option String
  | .name n _ => some n
  | .call n _ _ => some n
  | _ => none

/-- What can be handed to an engine: a whole program, a part of one, or something inert that is
neither an expression nor a statement. -/
inductive Program where
  | expr (e : Expr)
  | stmt (s : Stmt)
  | block (b : Block)
  | inert

end ScriptLang
