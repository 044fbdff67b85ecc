import ScriptLang.Datum.Bits
import ScriptLang.Value.Basic

/-!
Instructions of the stack machine.

An instruction is written as its operation and its operands. Instructions with the right number and
sort of operands have constructors of their own; everything else that can stand in a program is kept
as written, and fails when it is executed.
-/

namespace ScriptLang

/-- What a cell of the machine holds: a value, or data that are not a tagged pair. -/
inductive Cell where
  | value (v : Value)
  | loose (d : Datum)

namespace Cell

/-- A cell as a datum. -/
def toDatum : Cell → Datum
  | .value v => v.toDatum
  | .loose d => d

/-- A datum as a cell: a pair is a value. -/
def ofDatum : Datum → Cell
  | .tuple [tag, d] => .value ⟨Tag.ofDatum tag, d⟩
  | d => .loose d

/-- The fault of taking `n` items for two. -/
def wrongCount (n : Nat) : Fault :=
  if n < 2 then .value (.tooFewItems 2 n) else .value (.tooManyItems 2)

/-- The tag and the datum of a cell. A text of two characters comes apart into them. -/
def open? : Cell → Except Fault Value
  | .value v => .ok v
  | .loose (.tuple items) => .error (wrongCount items.length)
  | .loose (.str s) =>
    match s.toList with
    | [a, b] => .ok ⟨.other (.str (String.singleton a)), .str (String.singleton b)⟩
    | cs => .error (wrongCount cs.length)
  | .loose d => .error (.type (.unpacking d.kind))

end Cell

/-- Where a variable is kept. -/
inductive Slot where
  | index (i : Int)
  | other (d : Datum)

namespace Slot

/-- A slot as a datum. -/
def toDatum : Slot → Datum
  | .index i => .int i
  | .other d => d

/-- The slot that a datum names. -/
def ofDatum : Datum → Slot
  | .int i => .index i
  | d => .other d

/-- Equality of slots. -/
def same (a b : Slot) : Bool := a.toDatum.same b.toDatum

end Slot

/-- The name of a place in a program. -/
inductive Label where
  | text (name : String)
  /-- Data that are not a text. -/
  | other (d : Datum)

namespace Label

instance : Coe String Label := ⟨.text⟩

/-- A label as a datum. -/
def toDatum : Label → Datum
  | .text name => .str name
  | .other d => d

/-- The label that a datum is. -/
def ofDatum : Datum → Label
  | .str name => .text name
  | d => .other d

/-- Equality of labels. -/
def same : Label → Label → Bool
  | .text a, .text b => a == b
  | .other d, .other e => d.same e
  | _, _ => false

end Label

/-- Instructions. -/
inductive Instr where
  | push (cell : Cell)
  | pop
  | binary (op : BinaryOp)
  | bitwise (op : Bitwise)
  | neg
  | print
  | println
  | label (name : Label)
  | jump (target : Label)
  /-- Jumps if the top of the stack is zero or false. -/
  | jumpIfZero (target : Label)
  /-- Calls the subroutine at a label with as many arguments as the top of the stack says. -/
  | enter (target : Label)
  /-- Leaves a subroutine with the top of the stack as its result. -/
  | leave
  | loadGlobal (slot : Slot)
  | storeGlobal (slot : Slot)
  | loadLocal (slot : Slot)
  | storeLocal (slot : Slot)
  /-- A note on which variable the top of the stack is. -/
  | setSlot (note : Datum)
  | halt
  /-- Anything else, as written. -/
  | other (items : List Cell)

namespace BinaryOp

/-- The operation's name in a program. -/
def mnemonic : BinaryOp → String
  | .add => "ADD"
  | .sub => "SUB"
  | .mul => "MUL"
  | .div => "DIV"
  | .mod => "MOD"
  | .pow => "EXP"
  | .order .lt => "LT"
  | .order .le => "LE"
  | .order .gt => "GT"
  | .order .ge => "GE"
  | .eq => "EQ"
  | .ne => "NE"

/-- All binary operations. -/
def all : List BinaryOp :=
  [.add, .sub, .mul, .div, .mod, .pow, .order .lt, .order .le, .order .gt, .order .ge, .eq, .ne]

end BinaryOp

namespace Bitwise

/-- The operation's name in a program. -/
def mnemonic : Bitwise → String
  | .and => "AND"
  | .or => "OR"
  | .xor => "XOR"

/-- All bitwise operations. -/
def all : List Bitwise := [.and, .or, .xor]

end Bitwise

namespace Instr

/-- A text as a cell. -/
def textCell (s : String) : Cell := .loose (.str s)

/-- An instruction as it is written: its operation, then its operands. -/
def items : Instr → List Cell
  | .push cell => [textCell "PUSH", cell]
  | .pop => [textCell "POP"]
  | .binary op => [textCell op.mnemonic]
  | .bitwise op => [textCell op.mnemonic]
  | .neg => [textCell "NEG"]
  | .print => [textCell "PRINT"]
  | .println => [textCell "PRINTLN"]
  | .label name => [textCell "LABEL", .ofDatum name.toDatum]
  | .jump target => [textCell "JMP", .ofDatum target.toDatum]
  | .jumpIfZero target => [textCell "JMPZ", .ofDatum target.toDatum]
  | .enter target => [textCell "JSR", .ofDatum target.toDatum]
  | .leave => [textCell "RTS"]
  | .loadGlobal slot => [textCell "LOAD_GLOBAL", .ofDatum slot.toDatum]
  | .storeGlobal slot => [textCell "STORE_GLOBAL", .ofDatum slot.toDatum]
  | .loadLocal slot => [textCell "LOAD_LOCAL", .ofDatum slot.toDatum]
  | .storeLocal slot => [textCell "STORE_LOCAL", .ofDatum slot.toDatum]
  | .setSlot note => [textCell "SET_SLOT", .ofDatum note]
  | .halt => [textCell "HALT"]
  | .other items => items

/-- The instruction without operands that has a given name. -/
def bare? (name : String) : Option Instr :=
  match BinaryOp.all.find? fun op => op.mnemonic == name with
  | some op => some (.binary op)
  | none =>
    match Bitwise.all.find? fun op => op.mnemonic == name with
    | some op => some (.bitwise op)
    | none =>
      match name with
      | "POP" => some .pop
      | "NEG" => some .neg
      | "PRINT" => some .print
      | "PRINTLN" => some .println
      | "RTS" => some .leave
      | "HALT" => some .halt
      | _ => none

/-- The instruction of a given name with one operand. -/
def withOperand? (name : String) (operand : Cell) : Option Instr :=
  match name, operand with
  | "PUSH", cell => some (.push cell)
  | "LABEL", cell => some (.label (.ofDatum cell.toDatum))
  | "JMP", cell => some (.jump (.ofDatum cell.toDatum))
  | "JMPZ", cell => some (.jumpIfZero (.ofDatum cell.toDatum))
  | "JSR", cell => some (.enter (.ofDatum cell.toDatum))
  | "LOAD_GLOBAL", cell => some (.loadGlobal (.ofDatum cell.toDatum))
  | "STORE_GLOBAL", cell => some (.storeGlobal (.ofDatum cell.toDatum))
  | "LOAD_LOCAL", cell => some (.loadLocal (.ofDatum cell.toDatum))
  | "STORE_LOCAL", cell => some (.storeLocal (.ofDatum cell.toDatum))
  | "SET_SLOT", cell => some (.setSlot cell.toDatum)
  | _, _ => none

/-- The instruction that is written as the given items. -/
def ofItems : List Cell → Instr
  | [.loose (.str name)] => (bare? name).getD (.other [textCell name])
  | [.loose (.str name), operand] =>
    (withOperand? name operand).getD (.other [textCell name, operand])
  | items => .other items

/-- The name of the operand that an operation takes, if it takes one. -/
def operandName? (name : String) : Option String :=
  match name with
  | "PUSH" => some "value"
  | "LABEL" => some "name"
  | "JMP" | "JMPZ" | "JSR" => some "label"
  | "LOAD_GLOBAL" | "STORE_GLOBAL" | "LOAD_LOCAL" | "STORE_LOCAL" | "SET_SLOT" => some "slot"
  | "run" | "create_label_table" => some "instructions"
  | _ => none

end Instr

end ScriptLang
