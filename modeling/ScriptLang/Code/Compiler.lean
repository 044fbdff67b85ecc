import ScriptLang.Code.Basic
import ScriptLang.Report

/-!
Compiling programs to instructions of the stack machine.

The compiler knows the variables and functions in scope as symbols. A variable at depth zero lives
in a global slot, any other in a cell of the stack that is counted from the base of the running
call. Leaving a block removes its symbols and emits one `pop` for each of its variables. The state
that a failed compilation leaves behind is kept.
-/

namespace ScriptLang

/-- A name that the compiler knows. -/
structure Symbol where
  name : String
  isFunction : Bool
  depth : Int
  arity : Nat
  deriving DecidableEq, Repr, Inhabited

/-- The state of a compilation. -/
structure Compiler where
  code : Array Instr
  /-- Variables of open blocks, innermost last. -/
  locals : Array Symbol
  globals : Array Symbol
  functions : Array Symbol
  depth : Int
  labels : Nat

/-- A step of a compilation. -/
abbrev Compile := EStateM Failure Compiler

namespace Compiler

/-- The state before anything is compiled. -/
def empty : Compiler := ⟨#[], #[], #[], #[], 0, 0⟩

/-- The last symbol of a name, with its index. -/
def lastIndexed? (symbols : Array Symbol) (name : String) : Option (Symbol × Nat) :=
  symbols.toList.zipIdx.reverse.find? fun p => p.1.name == name

/-- The variable in scope under a name: among the locals first, then among the globals. -/
def varSymbol? (c : Compiler) (name : String) : Option (Symbol × Nat) :=
  match lastIndexed? c.locals name with
  | some p => some p
  | none => lastIndexed? c.globals name

/-- The function in scope under a name. -/
def funcSymbol? (c : Compiler) (name : String) : Option Symbol :=
  (lastIndexed? c.functions name).map (·.1)

/-- Adds an instruction. -/
def emit (i : Instr) : Compile Unit :=
  modify fun c => { c with code := c.code.push i }

/-- A label that has not been made before. -/
def freshLabel : Compile String := do
  let c ← get
  set { c with labels := c.labels + 1 }
  pure ("LBL" ++ toString (c.labels + 1))

/-- Opens a block. -/
def openBlock : Compile Unit :=
  modify fun c => { c with depth := c.depth + 1 }

/-- The symbols that remain when those deeper than `depth` are removed from the end. -/
def dropDeeper (depth : Int) (symbols : Array Symbol) : Array Symbol :=
  symbols.popWhile fun s => depth < s.depth

/-- Closes a block: one `pop` for each of its variables. -/
def closeBlock : Compile Unit :=
  modify fun c =>
    let depth := c.depth - 1
    let locals := dropDeeper depth c.locals
    { c with
      depth
      locals
      functions := dropDeeper depth c.functions
      code := c.code ++ Array.replicate (c.locals.size - locals.size) .pop }

/-- Reports an error and stops. -/
def refuse {α : Type} (line : Line) (text : String) : Compile α :=
  throw (.report (.atLine line text))

/-- The note for the last local. -/
def slotNote (index : Nat) (name : String) : Datum :=
  .str (toString index ++ " (" ++ name ++ ")")

/-- Makes the top of the stack a new local variable. -/
def addLocal (name : String) : Compile Unit := do
  let c ← get
  set { c with locals := c.locals.push ⟨name, false, c.depth, 0⟩ }
  emit (.setSlot (slotNote c.locals.size name))

/-- Stores the top of the stack in a new global variable. -/
def addGlobal (name : String) : Compile Unit := do
  let c ← get
  set { c with globals := c.globals.push ⟨name, false, c.depth, 0⟩ }
  emit (.storeGlobal (.index c.globals.size))

/-- Pushes a number literal. -/
def pushInt (i : Int) : Compile Unit :=
  match Number.ofInt? i with
  | some x => emit (.push (.value (.number (.float x))))
  | none => throw (.fault (.overflow .conversion))

/-- The name of an assignment's target. -/
def targetName (target : Expr) : Compile String :=
  match target.target? with
  | some name => pure name
  | none =>
    throw (.fault (.attribute ((target.outline.form?.map Form.name).getD "") "name"))

/-- Loads a variable. -/
def load (name : String) (line : Line) : Compile Unit := do
  match (← get).varSymbol? name with
  | none => refuse line ("Variable " ++ name ++ " is not defined.")
  | some (s, i) =>
    if s.depth == 0 then emit (.loadGlobal (.index i)) else emit (.loadLocal (.index i))

/-- Stores the top of the stack in the variable in scope under a name, or in a new one. -/
def store (name : String) : Compile Unit := do
  let c ← get
  match c.varSymbol? name with
  | none => if c.depth == 0 then addGlobal name else addLocal name
  | some (s, i) =>
    if s.depth == 0 then emit (.storeGlobal (.index i)) else emit (.storeLocal (.index i))

/-- The operation that is emitted for an operator. -/
def opcode? : Kind → Option BinaryOp
  | .plus => some .add
  | .minus => some .sub
  | .star => some .mul
  | .slash => some .div
  | .caret => some .pow
  | .percent => some .mod
  | .lt => some (.order .lt)
  | .gt => some (.order .gt)
  | .le => some (.order .le)
  | .ge => some (.order .ge)
  | .eqeq => some .eq
  | .ne => some .ne
  | _ => none

/-- Emits a binary operation, if the operator is one. -/
def emitBinary (op : Token) : Compile Unit :=
  match opcode? op.kind with
  | some o => emit (.binary o)
  | none => pure ()

mutual
/-- Compiles an expression. -/
def expr : Expr → Compile Unit
  | .integer value _ => pushInt value
  | .real value _ => emit (.push (.value (.number (.float value))))
  | .bool value _ => emit (.push (.value (.bool value)))
  | .text value _ => emit (.push (.value (.string value)))
  | .binary op left right _ => do
    expr left
    expr right
    emitBinary op
  | .unary op operand _ => do
    expr operand
    match op.kind with
    | .minus => emit .neg
    | .tilde => do
      emit (.push (.value (.bool true)))
      emit (.bitwise .xor)
    | _ => pure ()
  | .logical op left right _ => do
    expr left
    expr right
    match op.kind with
    | .kwAnd => emit (.bitwise .and)
    | .kwOr => emit (.bitwise .or)
    | _ => pure ()
  | .group inner _ => expr inner
  | .name n line => load n line
  | .call n args line => do
    match (← get).funcSymbol? n with
    | none => refuse line ("Not found declaration for function " ++ n)
    | some f =>
      if f.arity != args.length then
        refuse line ("Function expected " ++ toString f.arity ++ " params but " ++
          toString args.length ++ " args were passed")
      else
        exprs args
        emit (.push (.value (.number (.int args.length))))
        emit (.enter n)

/-- Compiles arguments from left to right. -/
def exprs : List Expr → Compile Unit
  | [] => pure ()
  | e :: es => do
    expr e
    exprs es
end

/-- Makes parameters local variables. -/
def addParams : List Param → Compile Unit
  | [] => pure ()
  | p :: ps => do
    addLocal p.name
    addParams ps

/-- Declares a function. -/
def declare (name : String) (arity : Nat) (line : Line) : Compile Unit := do
  let c ← get
  if (c.funcSymbol? name).isSome then
    refuse line ("A function with the name " ++ name ++ " was already declared.")
  else if (c.varSymbol? name).isSome then
    refuse line ("A variable with the name " ++ name ++ " was already defined in this scope.")
  else set { c with functions := c.functions.push ⟨name, true, c.depth, arity⟩ }

mutual
/-- Compiles a statement. Counted loops have no code. -/
def stmt : Stmt → Compile Unit
  | .print value ending _ => do
    expr value
    match ending with
    | .str "" => emit .print
    | _ => emit .println
  | .branch test thenBlock elseBlock _ => do
    expr test
    let thenLabel ← freshLabel
    let elseLabel ← freshLabel
    let exitLabel ← freshLabel
    emit (.jumpIfZero elseLabel)
    emit (.label thenLabel)
    openBlock
    block thenBlock
    closeBlock
    emit (.jump exitLabel)
    emit (.label elseLabel)
    elsePart elseBlock
    emit (.label exitLabel)
  | .loop test body _ => do
    let testLabel ← freshLabel
    let bodyLabel ← freshLabel
    let exitLabel ← freshLabel
    emit (.label testLabel)
    expr test
    emit (.jumpIfZero exitLabel)
    emit (.label bodyLabel)
    openBlock
    block body
    closeBlock
    emit (.jump testLabel)
    emit (.label exitLabel)
  | .assign target value _ => do
    expr value
    store (← targetName target)
  | .assignLocal target value _ => do
    expr value
    addLocal (← targetName target)
  | .count .. => pure ()
  | .func name params body line => do
    declare name params.length line
    let endLabel ← freshLabel
    emit (.jump endLabel)
    emit (.label name)
    openBlock
    addParams params
    block body
    closeBlock
    emit (.push (.value .nothing))
    emit .leave
    emit (.label endLabel)
  | .call n args line => do
    expr (.call n args line)
    emit .pop
  | .ret value _ => do
    expr value
    emit .leave

/-- Compiles a block. -/
def block : Block → Compile Unit
  | .mk ss _ => stmts ss

/-- Compiles the block after `else`, if there is one. -/
def elsePart : Option Block → Compile Unit
  | none => pure ()
  | some b => do
    openBlock
    block b
    closeBlock

/-- Compiles statements in order. -/
def stmts : List Stmt → Compile Unit
  | [] => pure ()
  | s :: ss => do
    stmt s
    stmts ss
end

/-- Compiles a program or a part of one. -/
def program : Program → Compile Unit
  | .expr e => expr e
  | .stmt s => stmt s
  | .block b => block b
  | .inert => pure ()

/-- Compiles a whole program, between its first label and `halt`. -/
def generate (p : Program) : Compile Unit := do
  emit (.label "START")
  program p
  emit .halt

end Compiler

end ScriptLang
