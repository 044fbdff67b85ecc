import ScriptLang.Machine.Basic
import ScriptLang.Machine.Operation

/-!
Running programs on the stack machine.

A run first collects the labels, then fetches and executes instructions until one halts the machine
or fails. The number of fetches is bounded; reaching the bound is neither an end nor a failure.
-/

namespace ScriptLang.Machine

/-- The message about operands that an operation does not take. -/
def betweenText (op : String) (a b : Value) (ending : String) : String :=
  "Error on " ++ op ++ " between " ++ a.tag.plain ++ " and " ++ b.tag.plain ++ ending

/-- What ends the message about a binary operation. -/
def messageEnding : BinaryOp → String
  | .add | .sub | .mul | .div => "."
  | _ => ""

/-- Pushes the result of an operation. -/
def pushResult (message : String) : Except OperationError Value → Step Unit
  | .ok v => push (.value v)
  | .error .tags => report message
  | .error (.fault f) => fault f

/-- Replaces the two topmost values by the result of a binary operation. -/
def binary (op : BinaryOp) : Step Unit := do
  let b ← popValue
  let a ← popValue
  pushResult (betweenText op.mnemonic a b (messageEnding op)) (result op a b)

/-- Replaces the two topmost values by the result of a bitwise operation. -/
def bitwise (op : Bitwise) : Step Unit := do
  let b ← popValue
  let a ← popValue
  pushResult (betweenText op.mnemonic a b "") (a.bitwise op b)

/-- Negates the topmost value. -/
def negate : Step Unit := do
  let v ← popValue
  pushResult ("Error on NEG between " ++ v.tag.plain) (negative v)

/-- Prints the topmost value. -/
def print (ending : String) : Step Unit := do
  let v ← popValue
  write ((← lift (Value.printed v.datum)) ++ ending)

/-- Pops a value and tells whether it is zero or false. -/
def popsZero : Step Bool := do
  let v ← popValue
  pure (v.datum.same (.int 0))

/-- Enters a subroutine. The topmost value is the number of its arguments, which are below it. -/
def enter (label : Label) : Step Unit := do
  let count ← popValue
  let base ← lift ((Datum.int (← get).sp).sub count.datum)
  modify fun m => { m with frames := ⟨label, m.pc, base⟩ :: m.frames }
  jump label

/-- Whether the counted height is above the base of the running call. -/
def aboveBase : Step Bool := do
  let m ← get
  match m.frames with
  | [] => fault (.index .list)
  | f :: _ => lift ((Datum.int m.sp).ordered .gt f.base)

/-- Pops at most `n` cells, down to the base of the running call. -/
def unwind : Nat → Step Unit
  | 0 => pure ()
  | n + 1 => do
    if ← aboveBase then
      let _ ← pop
      unwind n
    else pure ()

/-- Leaves a subroutine: the topmost cell takes the place of the cells of the call. -/
def leave : Step Unit := do
  let m ← get
  let result ← cellAt (m.sp - 1)
  unwind (m.stack.size + 1)
  push result
  modify fun m =>
    match m.frames with
    | [] => m
    | f :: rest => { m with pc := f.back, frames := rest }

/-- Pushes a global. -/
def loadGlobal (slot : Slot) : Step Unit := do
  match (← get).global? slot with
  | some c => push c
  | none => fault (.key slot.toDatum.shown)

/-- Pops a cell into a global. -/
def storeGlobal (slot : Slot) : Step Unit := do
  let c ← pop
  modify fun m => { m with globals := putGlobal slot c m.globals }

/-- Pushes a local variable. -/
def loadLocal (slot : Slot) : Step Unit := do
  let place ← localPlace slot
  let i ← lift (indexOf place)
  push (← cellAt i)

/-- Pops a cell into a local variable. -/
def storeLocal (slot : Slot) : Step Unit := do
  let place ← localPlace slot
  let c ← pop
  let i ← lift (indexOf place)
  setCellAt i c

/-- The fault of an instruction that is none of the machine's. -/
def misuse : List Cell → Fault
  | [] => .value .noOpcode
  | .loose (.str name) :: operands =>
    match name with
    | "stack" | "frames" => .type (.notCallable "list")
    | "labels" | "globals" => .type (.notCallable "dict")
    | "pc" | "sp" => .type (.notCallable "int")
    | "is_running" => .type (.notCallable "bool")
    | _ =>
      match Instr.operandName? name, Instr.bare? name with
      | some operand, _ =>
        if operands.isEmpty then .type (.missingOperand name operand)
        else if operands.length == 1 then
          .type (.iteration ((operands.map fun c => c.toDatum.kind).head?.getD ""))
        else .type (.extraOperands name 2 (operands.length + 1))
      | none, some _ => .type (.extraOperands name 1 (operands.length + 1))
      | none, none => .attribute "VM" name
  | c :: _ => .type (.operationName c.toDatum.kind)

/-- Executes an instruction. -/
def execute : Instr → Step Unit
  | .push cell => push cell
  | .pop => do
    let _ ← pop
    pure ()
  | .binary op => binary op
  | .bitwise op => bitwise op
  | .neg => negate
  | .print => print ""
  | .println => print "\n"
  | .label _ => pure ()
  | .jump label => jump label
  | .jumpIfZero label => do
    if ← popsZero then jump label else pure ()
  | .enter label => enter label
  | .leave => leave
  | .loadGlobal slot => loadGlobal slot
  | .storeGlobal slot => storeGlobal slot
  | .loadLocal slot => loadLocal slot
  | .storeLocal slot => storeLocal slot
  | .setSlot _ => pure ()
  | .halt => modify fun m => { m with running := false }
  | .other items => fault (misuse items)

/-- Stores the labels of the instructions from number `n` on. -/
def collectLabels (n : Nat) : List Instr → Step Unit
  | [] => pure ()
  | i :: rest => do
    match i with
    | .label label => modify fun m => { m with labels := m.labels.put label n }
    | .other [] => fault (.value .noOpcode)
    | .other [.loose (.str "LABEL")] => fault (.index .list)
    | .other (.loose (.str "LABEL") :: label :: _) =>
      modify fun m => { m with labels := m.labels.put (.ofDatum label.toDatum) n }
    | _ => pure ()
    collectLabels (n + 1) rest

/-- Forgets all labels and stores those of a program. -/
def readLabels (code : List Instr) : Step Unit := do
  modify fun m => { m with labels := [] }
  collectLabels 0 code

/-- Prepares the machine for a program. The stack, the frames and the globals stay as they are. -/
def start (code : List Instr) : Step Unit := do
  modify fun m => { m with pc := 0, sp := 0, running := true }
  readLabels code

/-- Fetches an instruction and executes it. -/
def step (code : Array Instr) : Step Unit := do
  match code[(← get).pc]? with
  | none => fault (.index .list)
  | some i =>
    modify fun m => { m with pc := m.pc + 1 }
    execute i

/-- How a run ends. -/
inductive Outcome where
  | halted
  | failed (f : Failure)
  /-- The bound on the number of fetches was reached. -/
  | limit

/-- Runs at most `n` instructions. -/
def loop (code : Array Instr) : Nat → Machine → Outcome × Machine
  | 0, m => (.limit, m)
  | n + 1, m =>
    match step code m with
    | .ok _ m => if m.running then loop code n m else (.halted, m)
    | .error f m => (.failed f, m)

/-- Runs a program with at most `n` fetches. -/
def run (n : Nat) (code : List Instr) (m : Machine) : Outcome × Machine :=
  match start code m with
  | .ok _ m => loop code.toArray n m
  | .error f m => (.failed f, m)

/-- What a trace shows of the machine before a fetch. -/
structure Snapshot where
  pc : Nat
  sp : Int
  height : Nat
  top : Option Cell
  calls : Nat

/-- The snapshot of a machine. -/
def snapshot (m : Machine) : Snapshot :=
  ⟨m.pc, m.sp, m.stack.size, m.stack.back?, m.frames.length⟩

/-- The snapshots before each fetch of `loop`, the one that is refused included. -/
def loopTrace (code : Array Instr) : Nat → Machine → List Snapshot
  | 0, m => [m.snapshot]
  | n + 1, m =>
    m.snapshot ::
      match step code m with
      | .ok _ m => if m.running then loopTrace code n m else []
      | .error _ _ => []

/-- The snapshots of a run. -/
def trace (n : Nat) (code : List Instr) (m : Machine) : List Snapshot :=
  match start code m with
  | .ok _ m => loopTrace code.toArray n m
  | .error _ _ => []

end ScriptLang.Machine
