import ScriptLang.IR.Basic
import ScriptLang.Report

/-!
Libraries that make modules.

What is made, and what its parts are known by, is the library's own affair: who builds a module asks
for blocks and instructions and hands on what it is given. A library may refuse an instruction for
reasons of its own. It notices when a block is to be left that has been left before.
-/

namespace ScriptLang.IR

/-- Instructions that are asked for because of their results. -/
inductive Operation (ν σ : Type) where
  | load (slot : σ)
  | binary (op : BinaryOp) (left right : ν)
  | neg (operand : ν)
  | complement (operand : ν)
  | compare (op : Comparison) (left right : ν)

/-- Instructions that are asked for because of their effects. -/
inductive Effect (ν σ : Type) where
  | store (value : ν) (slot : σ)
  /-- A call of the routine that prints operands of a type. -/
  | print (ty : Ty) (value : ν)

/-- Instructions that leave a block. -/
inductive Exit (ν β : Type) where
  | branch (test : ν) (yes no : β)
  | jump (target : β)
  | ret

/-- A library. -/
structure Library where
  /-- Modules in the making. -/
  State : Type
  Value : Type
  /-- Addresses of variables. -/
  Slot : Type
  /-- Names of blocks. -/
  Label : Type
  /-- A module with an empty block, to which instructions are added. -/
  start : State
  real : Float → Value
  bit : Bool → Value
  /-- Whether a value is taken for the number zero. -/
  isZero : Value → Bool
  /-- Whether a value is none. -/
  isNone : Value → Bool
  alloca : Ty → State → Except Failure (Slot × State)
  compute : Operation Value Slot → State → Except Failure (Value × State)
  effect : Effect Value Slot → State → Except Failure State
  /-- Why a value cannot be stored under no address. -/
  noSlot : Failure
  /-- Leaves the current block, unless it has been left before. -/
  leave : Exit Value Label → State → Option State
  newBlock : State → Label × State
  moveTo : Label → State → State

/-! ### Instructions with their operands -/

namespace Operation

/-- An operation with other names for values and addresses. -/
def map {ν ν' σ σ' : Type} (f : ν → ν') (g : σ → σ') : Operation ν σ → Operation ν' σ'
  | .load slot => .load (g slot)
  | .binary op left right => .binary op (f left) (f right)
  | .neg operand => .neg (f operand)
  | .complement operand => .complement (f operand)
  | .compare op left right => .compare op (f left) (f right)

/-- The instruction of an operation. -/
def instr : Operation Operand Pointer → Instr
  | .load slot => .load slot.ty slot.number
  | .binary op left right => .binary op left right
  | .neg operand => .neg operand
  | .complement operand => .complement operand
  | .compare op left right => .compare op left right

/-- The type of the result. -/
def ty : Operation Operand Pointer → Ty
  | .load slot => slot.ty
  | .binary _ left _ => left.ty
  | .neg operand | .complement operand => operand.ty
  | .compare _ _ _ => .bit

/-- Why the result would have no type. -/
def mismatch? : Operation Operand Pointer → Option Fault
  | .binary _ left right =>
    if left.ty = right.ty then none
    else some (.value (.operandTypes left.ty.name right.ty.name))
  | _ => none

end Operation

namespace Effect

/-- An effect with other names for values and addresses. -/
def map {ν ν' σ σ' : Type} (f : ν → ν') (g : σ → σ') : Effect ν σ → Effect ν' σ'
  | .store value slot => .store (f value) (g slot)
  | .print ty value => .print ty (f value)

/-- The instruction of an effect. -/
def instr : Effect Operand Pointer → Instr
  | .store value slot => .store value slot.number
  | .print ty value => .print ty value

/-- Why a value does not suit an address or a routine. -/
def mismatch? : Effect Operand Pointer → Option Fault
  | .store value slot =>
    if value.ty = slot.ty then none
    else some (.type (.storeMismatch value.ty.name (slot.ty.name ++ "*")))
  | .print ty value =>
    if value.ty = ty then none else some (.type (.argumentMismatch ty.name value.ty.name))

end Effect

namespace Exit

/-- An exit with other names for values and blocks. -/
def map {ν ν' β β' : Type} (f : ν → ν') (h : β → β') : Exit ν β → Exit ν' β'
  | .branch test yes no => .branch (f test) (h yes) (h no)
  | .jump target => .jump (h target)
  | .ret => .ret

/-- The instruction of an exit. -/
def instr : Exit Operand Nat → Instr
  | .branch test yes no => .branch test yes no
  | .jump target => .jump target
  | .ret => .ret

end Exit

/-! ### Modules as a library -/

/-- A block: its position in the function, and its number. -/
structure Place where
  position : Nat
  number : Nat

/-- The library that makes modules of numbered instructions. It refuses operands of types that do
not go together. -/
def Module.library : Library where
  State := Module
  Value := Operand
  Slot := Pointer
  Label := Place
  start := .empty
  real := .real
  bit := .bit
  isZero _ := false
  isNone _ := false
  alloca ty m := .ok (⟨m.counter + 1, ty⟩, m.add (.alloca ty))
  compute o m :=
    match o.mismatch? with
    | some f => .error (.fault f)
    | none => .ok (.register (m.counter + 1) o.ty, m.add o.instr)
  effect e m :=
    match e.mismatch? with
    | some f => .error (.fault f)
    | none => .ok (m.add e.instr)
  noSlot := .fault (.attribute Datum.none.kind "type")
  leave x m := if m.ended then none else some (m.add (x.map id Place.number).instr)
  newBlock m := (⟨m.blocks.size, m.counter + 1⟩, m.withBlock)
  moveTo place m := m.moved place.position

end ScriptLang.IR
