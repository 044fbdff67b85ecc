import ScriptLang.Text.Quoted

/-!
Modules of numbered instructions, and their text.

A module has one function made of blocks. Blocks and instructions share one counter: each takes the
next number when it is made, also an instruction without a result. A register is known by the number
of the instruction that fills it, a block by its own.
-/

namespace ScriptLang.IR

/-- Types of operands. -/
inductive Ty where
  | double
  | bit
  deriving DecidableEq, Repr

/-- The name of a type. -/
def Ty.name : Ty → String
  | .double => "double"
  | .bit => "i1"

/-- What an instruction works on. -/
inductive Operand where
  | real (x : Float)
  | bit (b : Bool)
  | register (number : Nat) (ty : Ty)

namespace Operand

/-- The type of an operand. -/
def ty : Operand → Ty
  | .real _ => .double
  | .bit _ => .bit
  | .register _ ty => ty

end Operand

/-- The address of a variable: the register that holds it, and the type of the variable. -/
structure Pointer where
  number : Nat
  ty : Ty

/-- A register or a block in a text. -/
def reference (number : Nat) : String :=
  "%\"." ++ toString number ++ "\""

/-- The bits of a number as a hexadecimal numeral without leading zeros, sixteen columns wide. -/
def realText (x : Float) : String :=
  let digits := "0x" ++ Text.hex 1 x.toBits.toNat
  "".pushn ' ' (16 - digits.length) ++ digits

/-- An operand in a text. -/
def Operand.text : Operand → String
  | .real x => realText x
  | .bit b => if b then "1" else "0"
  | .register number _ => reference number

/-- Operations on two operands of one type. -/
inductive BinaryOp where
  | add
  | sub
  | mul
  | div
  | rem
  | and
  | or
  deriving DecidableEq, Repr

/-- The name of an operation. -/
def BinaryOp.name : BinaryOp → String
  | .add => "fadd"
  | .sub => "fsub"
  | .mul => "fmul"
  | .div => "fdiv"
  | .rem => "frem"
  | .and => "and"
  | .or => "or"

/-- Comparisons, each of two numbers or two bits. -/
inductive Comparison where
  | gt
  | ge
  | lt
  | le
  | eq
  | ne
  | bitEq
  | bitNe
  deriving DecidableEq, Repr

/-- The name of a comparison. -/
def Comparison.name : Comparison → String
  | .gt => "fcmp ogt"
  | .ge => "fcmp oge"
  | .lt => "fcmp olt"
  | .le => "fcmp ole"
  | .eq => "fcmp oeq"
  | .ne => "fcmp one"
  | .bitEq => "icmp eq"
  | .bitNe => "icmp ne"

/-- Instructions. -/
inductive Instr where
  | alloca (ty : Ty)
  | store (value : Operand) (slot : Nat)
  | load (ty : Ty) (slot : Nat)
  | binary (op : BinaryOp) (left right : Operand)
  | neg (operand : Operand)
  /-- The operand with all its bits turned. -/
  | complement (operand : Operand)
  | compare (op : Comparison) (left right : Operand)
  | branch (test : Operand) (yes no : Nat)
  | jump (target : Nat)
  /-- Calls the routine that prints an operand of a type. -/
  | print (ty : Ty) (value : Operand)
  | ret

/-- The routine that prints operands of a type. -/
def Ty.printer : Ty → String
  | .double => "print_f64"
  | .bit => "print_i1"

/-- What all bits of an operand are turned with. -/
def Ty.allOnes : Ty → String
  | .double => realText (-1)
  | .bit => "-1"

namespace Instr

/-- The text of an instruction without the register it fills. -/
def text : Instr → String
  | .alloca ty => "alloca " ++ ty.name
  | .store value slot =>
    "store " ++ value.ty.name ++ " " ++ value.text ++ ", " ++ value.ty.name ++ "* " ++
      reference slot
  | .load ty slot => "load " ++ ty.name ++ ", " ++ ty.name ++ "* " ++ reference slot
  | .binary op left right =>
    op.name ++ " " ++ left.ty.name ++ " " ++ left.text ++ ", " ++ right.text
  | .neg operand => "fneg " ++ operand.ty.name ++ " " ++ operand.text
  | .complement operand =>
    "xor " ++ operand.ty.name ++ " " ++ operand.text ++ ", " ++ operand.ty.allOnes
  | .compare op left right =>
    op.name ++ " " ++ left.ty.name ++ " " ++ left.text ++ ", " ++ right.text
  | .branch test yes no =>
    "br " ++ test.ty.name ++ " " ++ test.text ++ ", label " ++ reference yes ++ ", label " ++
      reference no
  | .jump target => "br label " ++ reference target
  | .print ty value =>
    "call void @\"" ++ ty.printer ++ "\"(" ++ value.ty.name ++ " " ++ value.text ++ ")"
  | .ret => "ret i32 0"

/-- Whether an instruction fills a register. -/
def hasResult : Instr → Bool
  | .alloca _ | .load _ _ | .binary _ _ _ | .neg _ | .complement _ | .compare _ _ _ => true
  | _ => false

/-- Whether an instruction leaves its block. -/
def leaves : Instr → Bool
  | .branch _ _ _ | .jump _ | .ret => true
  | _ => false

/-- The line of an instruction with its number. -/
def line (number : Nat) (i : Instr) : String :=
  if i.hasResult then "  " ++ reference number ++ " = " ++ i.text ++ "\n"
  else "  " ++ i.text ++ "\n"

end Instr

/-- A block: its own number, and its instructions with theirs. -/
structure Block where
  number : Nat
  code : Array (Nat × Instr)
  deriving Inhabited

/-- The block has an instruction that leaves it. -/
def Block.ended (b : Block) : Bool :=
  (b.code.back?).any fun entry => entry.2.leaves

/-- The text of a block. -/
def Block.text (b : Block) : String :=
  b.code.foldl (fun s entry => s ++ entry.2.line entry.1) ("." ++ toString b.number ++ ":\n")

/-- A module in the making. -/
structure Module where
  /-- The number that was taken last. -/
  counter : Nat
  blocks : Array Block
  /-- The position of the block that instructions are added to. -/
  current : Nat

namespace Module

/-- A module whose function has an empty block. -/
def empty : Module := ⟨2, #[⟨2, #[]⟩], 0⟩

/-- The module with an instruction more in the current block. -/
def add (m : Module) (i : Instr) : Module :=
  { m with
    counter := m.counter + 1
    blocks := m.blocks.modify m.current fun b =>
      { b with code := b.code.push (m.counter + 1, i) } }

/-- The module with an empty block more. -/
def withBlock (m : Module) : Module :=
  { m with counter := m.counter + 1, blocks := m.blocks.push ⟨m.counter + 1, #[]⟩ }

/-- The module with another current block. -/
def moved (m : Module) (position : Nat) : Module := { m with current := position }

/-- The current block has an instruction that leaves it. -/
def ended (m : Module) : Bool := (m.blocks[m.current]?).any Block.ended

end Module

/-- The declaration of a routine that prints operands of a type. -/
def declaration (routine type : String) : String :=
  "\ndeclare void @\"" ++ routine ++ "\"(" ++ type ++ " %\".1\")\n"

/-- The text of a module. -/
def Module.text (m : Module) : String :=
  "; ModuleID = \"pinky_subset\"\n" ++
    "target triple = \"unknown-unknown-unknown\"\n" ++
    "target datalayout = \"\"\n\n" ++
    "define i32 @\"main\"()\n\x7b\n" ++
    String.join (m.blocks.toList.map Block.text) ++ "\x7d\n" ++
    declaration "print_i32" "i32" ++
    declaration Ty.double.printer Ty.double.name ++
    declaration Ty.bit.printer Ty.bit.name

end ScriptLang.IR
