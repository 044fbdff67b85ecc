import ScriptLang.Report
import ScriptLang.Scope.Forest
import ScriptLang.Value.Basic

/-!
The state of evaluation, and how it stops.

Evaluation changes scopes and prints. What it changed and printed before it stopped stays. Fuel
bounds the depth of the evaluation; running out of it is neither a value nor a failure.
-/

namespace ScriptLang

/-- A declared function and the scope it was declared in. -/
structure Closure where
  name : String
  params : List Param
  body : Block
  scope : Nat

/-- What evaluation changes. -/
structure Store where
  forest : Forest Value Closure
  output : String

/-- Why evaluation stops early. -/
inductive Stop where
  | failure (f : Failure)
  /-- A value is returned from the running function. -/
  | ret (value : Option Value)
  | outOfFuel

/-- How a whole program fails if its evaluation stops early. A value is then returned outside every
function. -/
def Stop.toFailure : Stop → Failure
  | .failure f => f
  | .ret v => .returned ((v.map Value.toDatum).getD .none).shown
  | .outOfFuel => .endless

/-- A computation on the store that may stop early. -/
abbrev Eval := EStateM Stop Store

namespace Store

/-- One empty scope, and nothing printed. -/
def empty : Store := ⟨Forest.root, ""⟩

end Store

namespace Eval

/-- Stops with a fault. -/
def fault {α : Type} (f : Fault) : Eval α :=
  throw (.failure (.fault f))

/-- Prints a report and stops. -/
def report {α : Type} (line : Line) (text : String) : Eval α :=
  throw (.failure (.report (.atLine line text)))

/-- The result of an operation that may fault. -/
def lift {α : Type} : Except Fault α → Eval α
  | .ok a => pure a
  | .error f => fault f

/-- Prints a text. -/
def write (text : String) : Eval Unit :=
  modify fun s => { s with output := s.output ++ text }

/-- The value of an expression where one is needed. -/
def demand : Option Value → Eval Value
  | some v => pure v
  | none => fault (.type (.unpacking Datum.none.kind))

/-- A new scope inside another. -/
def childScope (σ : Nat) : Eval Nat := fun s =>
  .ok s.forest.scopes.size { s with forest := (s.forest.child σ).2 }

/-- Assigns to a variable. -/
def setVar (σ : Nat) (name : String) (value : Option Value) : Eval Unit :=
  modify fun s => { s with forest := s.forest.setVar σ name value }

/-- Binds a variable in a scope itself. -/
def setLocal (σ : Nat) (name : String) (value : Option Value) : Eval Unit :=
  modify fun s => { s with forest := s.forest.setLocal σ name value }

/-- Binds parameters to arguments, one by one. -/
def bindParams (σ : Nat) : List Param → List (Option Value) → Eval Unit
  | p :: ps, v :: vs => do
    setLocal σ p.name v
    bindParams σ ps vs
  | _, _ => pure ()

/-- The value of a name. -/
def lookup (σ : Nat) (name : String) (line : Line) : Eval Value := do
  match (← get).forest.getVar σ name with
  | none => report line ("Undeclared identifier " ++ Text.quoted name)
  | some v =>
    match v.datum with
    | .none => report line ("Uninitialized identifier " ++ Text.quoted name)
    | _ => pure v

/-- The message about an operator between two tags. -/
def betweenText (op : Token) (a b : Value) : String :=
  "Unsupported operator " ++ Text.quoted op.lexeme ++ " between " ++ a.tag.plain ++ " and " ++
    b.tag.plain ++ "."

/-- The message about an operator before a tag. -/
def withText (op : Token) (v : Value) : String :=
  "Unsupported operator " ++ Text.quoted op.lexeme ++ " with " ++ v.tag.plain ++ "."

/-- Applies a binary operator. Division by zero is reported whatever the tags are; an operator
that is no binary one yields no value. -/
def binary (op : Token) (a b : Value) (line : Line) : Eval (Option Value) :=
  match BinaryOp.ofKind? op.kind with
  | none => pure none
  | some o =>
    if o == .div && b.datum.same (.int 0) then report line "Division by zero."
    else
      match o.apply a b with
      | .ok v => pure (some v)
      | .error .tags => report op.line (betweenText op a b)
      | .error (.fault f) => fault f

/-- Applies a sign or a negation. -/
def unary (op : Token) (v : Value) : Eval (Option Value) :=
  match op.kind with
  | .minus =>
    match v.neg with
    | .ok w => pure (some w)
    | .error .tags => report op.line (withText op v)
    | .error (.fault f) => fault f
  | .plus =>
    match v.tag with
    | .number => pure (some v)
    | _ => report op.line (withText op v)
  | .tilde =>
    match v.tag with
    | .bool => pure (some (.bool (!v.datum.truthy)))
    | _ => report op.line (withText op v)
  | _ => pure none

/-- Whether the left operand of `and` and `or` decides the result. -/
def decides (op : Token) (v : Value) : Bool :=
  match op.kind with
  | .kwOr => v.datum.truthy
  | .kwAnd => !v.datum.truthy
  | _ => false

/-- Prints a datum and what ends it. -/
def print (d ending : Datum) : Eval Unit := do
  let text ← lift (Value.printed d)
  match ending with
  | .none => write (text ++ "\n")
  | .str s => write (text ++ s)
  | e => fault (.type (.ending e.kind))

/-- Stores a value under the name of an assignment's target. -/
def targetName (target : Expr) : Eval String :=
  match target.target? with
  | some name => pure name
  | none => fault (.attribute ((target.outline.form?.map Form.name).getD "") "name")

end Eval

end ScriptLang
