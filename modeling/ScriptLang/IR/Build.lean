import ScriptLang.IR.Library
import ScriptLang.Table

/-!
From programs to modules of numbered instructions.

A library makes the module. Only numbers and truth values are known, and all variables belong to the
one function. `and` and `or` are bitwise on both operands and declare a truth value, whatever the
operands are. Statements that have no instructions, and operators without any, are passed over.
-/

namespace ScriptLang.IR

/-- The declared type of a value. -/
inductive Declared where
  | number
  | truth
  deriving DecidableEq, Repr

namespace Declared

/-- The name of a declared type. -/
def name : Declared → String
  | .number => "TYPE_NUMBER"
  | .truth => "TYPE_BOOL"

/-- The type of an operand of a declared type. -/
def ty : Declared → Ty
  | .number => .double
  | .truth => .bit

end Declared

/-- A value: its declared type and the operand that holds it. -/
structure Typed (ν : Type) where
  declared : Declared
  operand : ν

/-- A variable: its declared type and its address. -/
structure Variable (σ : Type) where
  declared : Declared
  slot : σ

/-- The operation that an operator between numbers stands for. -/
def arithmetic? : Kind → Option BinaryOp
  | .plus => some .add
  | .minus => some .sub
  | .star => some .mul
  | .slash => some .div
  | .percent => some .rem
  | _ => none

/-- The comparison that an operator between numbers stands for. -/
def comparison? : Kind → Option Comparison
  | .gt => some .gt
  | .ge => some .ge
  | .lt => some .lt
  | .le => some .le
  | .eqeq => some .eq
  | .ne => some .ne
  | _ => none

/-- The comparison that an operator between truth values stands for. -/
def truthComparison? : Kind → Option Comparison
  | .eqeq => some .bitEq
  | .ne => some .bitNe
  | _ => none

/-- The bitwise operation of a connective. -/
def connective? : Kind → Option BinaryOp
  | .kwOr => some .or
  | .kwAnd => some .and
  | _ => none

/-- The state of a building. -/
structure Building (L : Library) where
  state : L.State
  /-- The variables; those without type and address have only been announced. -/
  vars : Table (Option (Variable L.Slot))

/-- A step that stays in the current block. -/
abbrev Ask (L : Library) := EStateM Failure (Building L)

/-- Why a building stops. -/
inductive Stop where
  | failure (f : Failure)
  /-- A block was to be left that had been left before. -/
  | leftTwice

/-- A step of a building. -/
abbrev Build (L : Library) := EStateM Stop (Building L)

namespace Building

/-- A module with an empty block and no variables. -/
def start (L : Library) : Building L := ⟨L.start, []⟩

variable {L : Library}

/-- Announces variables without type and address. -/
def announce (names : List String) (g : Building L) : Building L :=
  { g with vars := names.foldl (fun vars name => vars.put name none) g.vars }

/-! ### Expressions and assignments -/

/-- Stops with a fault. -/
def fault {α : Type} (f : Fault) : Ask L α :=
  throw (.fault f)

/-- Reports an error and stops. -/
def refuse {α : Type} (line : Line) (text : String) : Ask L α :=
  throw (.report (.atLine line text))

/-- Asks for the address of a new variable. -/
def reserve (ty : Ty) : Ask L L.Slot := fun g =>
  match L.alloca ty g.state with
  | .ok (slot, s) => .ok slot { g with state := s }
  | .error f => .error f g

/-- Asks for a value. -/
def compute (o : Operation L.Value L.Slot) : Ask L L.Value := fun g =>
  match L.compute o g.state with
  | .ok (v, s) => .ok v { g with state := s }
  | .error f => .error f g

/-- Asks for an effect. -/
def effect (e : Effect L.Value L.Slot) : Ask L Unit := fun g =>
  match L.effect e g.state with
  | .ok s => .ok () { g with state := s }
  | .error f => .error f g

/-- Asks for a value of a declared type. -/
def result (declared : Declared) (o : Operation L.Value L.Slot) : Ask L (Option (Typed L.Value)) :=
  do
    let v ← compute o
    pure (some ⟨declared, v⟩)

/-- The value of an expression where one is needed. -/
def demand : Option (Typed L.Value) → Ask L (Typed L.Value)
  | some v => pure v
  | none => fault (.type (.unpacking Datum.none.kind))

/-- Loads a variable. -/
def load (name : String) (line : Line) : Ask L (Option (Typed L.Value)) := do
  match (← get).vars.lookup? name with
  | none => fault (.type (.unpacking Datum.none.kind))
  | some none => refuse line ("Undeclared identifier " ++ Text.quoted name)
  | some (some var) =>
    let v ← compute (.load var.slot)
    if L.isNone v then refuse line ("Uninitialized identifier " ++ Text.quoted name)
    else pure (some ⟨var.declared, v⟩)

/-- Assigns to a variable, which is made if it is new. -/
def assign (name : String) (value : Typed L.Value) : Ask L Unit := do
  match (← get).vars.lookup? name with
  | some (some var) => effect (.store value.operand var.slot)
  | some none => throw L.noSlot
  | none =>
    let slot ← reserve value.declared.ty
    effect (.store value.operand slot)
    modify fun g => { g with vars := g.vars.put name (some ⟨value.declared, slot⟩) }

/-- Assigns to the target of an assignment. -/
def assignTo (target : Expr) (value : Typed L.Value) : Ask L Unit :=
  match target.target? with
  | some name => assign name value
  | none => fault (.attribute ((target.outline.form?.map Form.name).getD "") "name")

/-- Prints a value. -/
def print (v : Typed L.Value) : Ask L Unit :=
  effect (.print v.declared.ty v.operand)

/-- The message about an operator between two types. -/
def betweenText (op : Token) (a b : Typed L.Value) : String :=
  "Unsupported operator " ++ Text.quoted op.lexeme ++ " between " ++ a.declared.name ++ " and " ++
    b.declared.name ++ "."

/-- The message about an operator before a type. -/
def withText (op : Token) (v : Typed L.Value) : String :=
  "Unsupported operator " ++ Text.quoted op.lexeme ++ " with " ++ v.declared.name ++ "."

/-- A binary operation. A divisor is tested before the types are. -/
def binary (op : Token) (a b : Typed L.Value) (line : Line) : Ask L (Option (Typed L.Value)) :=
  match arithmetic? op.kind, comparison? op.kind with
  | some o, _ =>
    if o = .div ∧ L.isZero b.operand = true then refuse line "Division by zero."
    else
      match a.declared, b.declared with
      | .number, .number => result .number (.binary o a.operand b.operand)
      | _, _ => refuse op.line (betweenText op a b)
  | none, some c =>
    match a.declared, b.declared, truthComparison? op.kind with
    | .number, .number, _ => result .truth (.compare c a.operand b.operand)
    | .truth, .truth, some t => result .truth (.compare t a.operand b.operand)
    | _, _, _ => refuse op.line (betweenText op a b)
  | none, none => pure none

/-- A sign or a negation. -/
def unary (op : Token) (v : Typed L.Value) : Ask L (Option (Typed L.Value)) :=
  match op.kind with
  | .minus =>
    match v.declared with
    | .number => result .number (.neg v.operand)
    | .truth => refuse op.line (withText op v)
  | .plus =>
    match v.declared with
    | .number => pure (some v)
    | .truth => refuse op.line (withText op v)
  | .tilde =>
    match v.declared with
    | .truth => result .truth (.complement v.operand)
    | .number => refuse op.line (withText op v)
  | _ => pure none

/-- The bitwise operation of a connective. -/
def logical (op : Token) (a b : Typed L.Value) : Ask L (Option (Typed L.Value)) :=
  match connective? op.kind with
  | some o => result .truth (.binary o a.operand b.operand)
  | none => pure none

/-- The instructions of an expression. -/
def expr : Expr → Ask L (Option (Typed L.Value))
  | .integer value _ =>
    match Number.ofInt? value with
    | some x => pure (some ⟨.number, L.real x⟩)
    | none => fault (.overflow .conversion)
  | .real value _ => pure (some ⟨.number, L.real value⟩)
  | .bool value _ => pure (some ⟨.truth, L.bit value⟩)
  | .text _ line =>
    refuse line "Strings are not implemented in our current LLVM IR generator."
  | .group inner _ => expr inner
  | .name n line => load n line
  | .binary op left right line => do
    let a ← demand (← expr left)
    let b ← demand (← expr right)
    binary op a b line
  | .unary op operand _ => do
    let v ← demand (← expr operand)
    unary op v
  | .logical op left right _ => do
    let a ← demand (← expr left)
    let b ← demand (← expr right)
    logical op a b
  | .call _ _ line =>
    refuse line "Function calls are not implemented in the current LLVM IR generator."

/-- The value of an expression that is needed. -/
def value (e : Expr) : Ask L (Typed L.Value) := do
  demand (← expr e)

/-! ### Statements -/

/-- A step that stays in its block, in a building. -/
def here {α : Type} (x : Ask L α) : Build L α := fun g =>
  match x g with
  | .ok a g => .ok a g
  | .error f g => .error (.failure f) g

/-- Leaves the current block. -/
def leave (x : Exit L.Value L.Label) : Build L Unit := fun g =>
  match L.leave x g.state with
  | some s => .ok () { g with state := s }
  | none => .error .leftTwice g

/-- Asks for a new block. -/
def newBlock : Build L L.Label := fun g =>
  .ok (L.newBlock g.state).1 { g with state := (L.newBlock g.state).2 }

/-- Goes on in another block. -/
def moveTo (label : L.Label) : Build L Unit :=
  modify fun g => { g with state := L.moveTo label g.state }

/-- Jumps to a block and goes on in another. -/
def jumpThenMove (target next : L.Label) : Build L Unit := do
  leave (.jump target)
  moveTo next

/-- Two blocks that a statement comes to after its first one. -/
structure Ahead (L : Library) where
  next : L.Label
  last : L.Label

/-- A branch up to its first block. Its second block and its exit are ahead. -/
def branchHead (test : Expr) (line : Line) : Build L (Ahead L) := do
  let v ← here (value test)
  match v.declared with
  | .number => here (refuse line "Condition test is not a boolean expression.")
  | .truth =>
    let yes ← newBlock
    let no ← newBlock
    let exit ← newBlock
    leave (.branch v.operand yes no)
    moveTo yes
    pure ⟨no, exit⟩

/-- A loop up to its body. Its test and its exit are ahead. -/
def loopHead (test : Expr) (line : Line) : Build L (Ahead L) := do
  let again ← newBlock
  let inside ← newBlock
  let exit ← newBlock
  jumpThenMove again again
  let v ← here (value test)
  match v.declared with
  | .number => here (refuse line "While test is not a boolean expression.")
  | .truth =>
    leave (.branch v.operand inside exit)
    moveTo inside
    pure ⟨again, exit⟩

mutual
/-- The instructions of a statement. -/
def stmt : Stmt → Build L Unit
  | .print e _ _ => here (value e >>= print)
  | .assign target e _ => here (value e >>= assignTo target)
  | .assignLocal target e _ => here (value e >>= assignTo target)
  | .branch test thenBlock elseBlock line => do
    let ahead ← branchHead test line
    block thenBlock
    jumpThenMove ahead.last ahead.next
    optionalBlock elseBlock
    jumpThenMove ahead.last ahead.last
  | .loop test body line => do
    let ahead ← loopHead test line
    block body
    jumpThenMove ahead.next ahead.last
  | .func _ _ _ line => here
    (refuse line "Function declarations are not implemented in the current LLVM IR generator.")
  | .count .. => pure ()
  | .call _ _ _ => pure ()
  | .ret _ _ => pure ()

/-- The instructions of a block. -/
def block : ScriptLang.Block → Build L Unit
  | .mk ss _ => stmts ss

/-- The instructions of a block that may be missing. -/
def optionalBlock : Option ScriptLang.Block → Build L Unit
  | none => pure ()
  | some b => block b

/-- The instructions of statements in order. -/
def stmts : List Stmt → Build L Unit
  | [] => pure ()
  | s :: ss => do
    stmt s
    stmts ss
end

/-- The instructions of a program or of a part of one. -/
def program : Program → Build L Unit
  | .expr e => do
    let _ ← here (expr e)
  | .stmt s => stmt s
  | .block b => block b
  | .inert => pure ()

/-- A whole program, with the instruction that ends the function. -/
def wholeProgram (p : Program) : Build L Unit := do
  program p
  leave .ret

end Building

/-- The failure of a building. -/
def Stop.toFailure : Stop → Failure
  | .failure f => f
  | .leftTwice => .fault (.assertion "")

end ScriptLang.IR
