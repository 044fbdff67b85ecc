import ScriptLang.Code.Basic
import ScriptLang.Report

/-!
The state of the stack machine and its elementary steps.

The machine counts the height of its stack by itself. A failed `pop` counts too, so the count may
differ from the number of cells; positions counted from it wrap around as negative indexes do. What
a step did before it failed stays.
-/

namespace ScriptLang

/-- The places of labels, in the order in which the labels were first stored. -/
abbrev Labels := List (Label × Nat)

namespace Labels

/-- The place of a label. -/
def lookup? : Labels → Label → Option Nat
  | [], _ => none
  | (l, n) :: rest, label => if l.same label then some n else lookup? rest label

/-- Stores the place of a label: instead of an older one of the same label, else at the end. -/
def put : Labels → Label → Nat → Labels
  | [], label, place => [(label, place)]
  | (l, n) :: rest, label, place =>
    if l.same label then (l, place) :: rest else (l, n) :: put rest label place

end Labels

/-- A running call. -/
structure Frame where
  name : Label
  /-- The instruction to go on with after the call. -/
  back : Nat
  /-- Where the cells of the call begin. -/
  base : Datum

/-- The state of the machine. -/
structure Machine where
  /-- The top is at the end. -/
  stack : Array Cell
  /-- The innermost call first. -/
  frames : List Frame
  labels : Labels
  globals : List (Slot × Cell)
  /-- The number of the next instruction. -/
  pc : Nat
  /-- The counted height of the stack. -/
  sp : Int
  running : Bool
  output : String

/-- A step of the machine. -/
abbrev Step := EStateM Failure Machine

namespace Machine

attribute [local instance (high)] instPowNat

/-- A machine that has not run. -/
def empty : Machine := ⟨#[], [], [], [], 0, 0, false, ""⟩

/-- Stops with a fault. -/
def fault {α : Type} (f : Fault) : Step α :=
  throw (.fault f)

/-- The result of an operation that may fault. -/
def lift {α : Type} : Except Fault α → Step α
  | .ok a => pure a
  | .error f => fault f

/-- Reports an error at the instruction that was fetched last. -/
def report {α : Type} (text : String) : Step α := fun m =>
  .error (.report ⟨.address (m.pc - 1), text⟩) m

/-- Prints a text. -/
def write (text : String) : Step Unit :=
  modify fun m => { m with output := m.output ++ text }

/-- Pushes a cell. -/
def push (c : Cell) : Step Unit :=
  modify fun m => { m with stack := m.stack.push c, sp := m.sp + 1 }

/-- Pops a cell. The height is counted down also if there is none. -/
def pop : Step Cell := fun m =>
  match m.stack.back? with
  | some c => .ok c { m with stack := m.stack.pop, sp := m.sp - 1 }
  | none => .error (.fault (.index .pop)) { m with sp := m.sp - 1 }

/-- Pops a value. -/
def popValue : Step Value := do
  lift (← pop).open?

/-- The position that an index names in a sequence; negative ones count from the end. -/
def position? (size : Nat) (i : Int) : Option Nat :=
  if 0 ≤ i then
    if i < size then some i.toNat else none
  else if 0 ≤ i + size then some (i + size).toNat
  else none

/-- A datum as an index. -/
def indexOf : Datum → Except Fault Int
  | .int i => .ok i
  | .bool b => .ok (if b then 1 else 0)
  | d => .error (.type (.index d.kind))

/-- The fault of an index that names no position. An index that is no machine word has a fault of
its own. -/
def outside (cause : IndexFault) (i : Int) : Fault :=
  .index (if -2 ^ (63 : Nat) ≤ i ∧ i < 2 ^ (63 : Nat) then cause else .wide)

/-- The cell at an index of the stack. -/
def cellAt (i : Int) : Step Cell := do
  let m ← get
  match position? m.stack.size i with
  | some k => lift ((m.stack[k]?.map .ok).getD (.error (outside .list i)))
  | none => fault (outside .list i)

/-- Replaces the cell at an index of the stack. -/
def setCellAt (i : Int) (c : Cell) : Step Unit := do
  match position? (← get).stack.size i with
  | some k => modify fun m => { m with stack := m.stack.setIfInBounds k c }
  | none => fault (outside .assignment i)

/-- The instruction at a label. -/
def target (label : Label) : Step Nat := do
  match (← get).labels.lookup? label with
  | some n => pure n
  | none => fault (.key label.toDatum.shown)

/-- Goes on at a label. -/
def jump (label : Label) : Step Unit := do
  let n ← target label
  modify fun m => { m with pc := n }

/-- The global in a slot. -/
def global? (slot : Slot) (m : Machine) : Option Cell :=
  (m.globals.find? fun entry => entry.1.same slot).map (·.2)

/-- The globals after one is stored. -/
def putGlobal (slot : Slot) (c : Cell) : List (Slot × Cell) → List (Slot × Cell)
  | [] => [(slot, c)]
  | (s, old) :: rest => if s.same slot then (s, c) :: rest else (s, old) :: putGlobal slot c rest

/-- The place of a local variable, which counts from the base of the running call. -/
def localPlace (slot : Slot) : Step Datum := do
  match (← get).frames with
  | [] => pure slot.toDatum
  | f :: _ =>
    match slot.toDatum.add f.base with
    | .ok d => pure d
    | .error (.type (.operands _ l r)) => fault (.type (.operands "+=" l r))
    | .error e => fault e

end Machine

end ScriptLang
