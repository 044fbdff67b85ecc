import ScriptLang.Code.Compiler
import ScriptLang.Code.Listing
import ScriptLang.Eval.Numeric
import ScriptLang.Eval.Run
import ScriptLang.IR.Build
import ScriptLang.Machine.Run
import ScriptLang.Parse.Binding
import ScriptLang.Parse.Stmt
import ScriptLang.Text.Indented
import ScriptLang.Text.Newline

/-!
The commands, as functions from a source file to what they print and write.

Each command takes one file name. Everything that was printed before a failure stays printed.
-/

namespace ScriptLang

/-- The commands. -/
inductive Command where
  /-- Shows the phases of a program, evaluates it, compiles it and runs it on the machine. -/
  | script
  /-- Writes the instructions of a program to a file. -/
  | instructions
  /-- Shows and evaluates one expression of numbers. -/
  | formula
  deriving DecidableEq, Repr

namespace Command

/-- The name of the file that instructions are written to. -/
def instructionFile : String := "main.ll"

/-- How a command ends early. -/
inductive Trouble where
  | failure (f : Failure)
  | usage (c : Command)
  | noFile (name : String)
  deriving DecidableEq, Repr

/-- How a command is called. -/
def usage : Command → String
  | .script => "Usage: python3 pinky.py <filename>"
  | .instructions => "Usage: python3.11 llvm.py <filename>"
  | .formula => "Usage: python3 pratt.py <filename>"

/-- The wording of a trouble. -/
def Trouble.message : Trouble → String
  | .failure f => f.message
  | .usage c => c.usage
  | .noFile name => "[Errno 2] No such file or directory: " ++ Text.quoted name

/-- What a command has printed and written. -/
structure Effects where
  printed : String
  /-- The text of the instruction file, if it was written. -/
  written : Option String
  deriving DecidableEq, Repr

/-- A step of a command. -/
abbrev Action := EStateM Trouble Effects

/-- Prints a text. -/
def write (text : String) : Action Unit :=
  modify fun e => { e with printed := e.printed ++ text }

/-- Stops with a failure, whose report is printed. -/
def fail {α : Type} (f : Failure) : Action α := do
  write f.printed
  throw (.failure f)

/-- The result of a step that may fail. -/
def orFail {ε α : Type} (toFailure : ε → Failure) : Except ε α → Action α
  | .ok a => pure a
  | .error e => fail (toFailure e)

/-- A line in the colour of headings. -/
def greenLine (text : String) : String :=
  Colour.green.code ++ text ++ Colour.normal.code ++ "\n"

/-- A row of stars. -/
def stars : String := "".pushn '*' 39

/-- A heading between two rows of stars. -/
def heading (title : String) : String :=
  greenLine stars ++ greenLine (title ++ ":") ++ greenLine stars

/-- A line for each token. -/
def tokenLines (tokens : List Token) : String :=
  String.join (tokens.map fun t => t.shown ++ "\n")

/-- The tokens and the tree, each with its heading. -/
def showPhases (tokens : List Token) (tree : String) : Action Unit := do
  write (heading "TOKENS" ++ tokenLines tokens)
  write ("\n" ++ heading "AST" ++ Text.indented tree)
  write ("\n" ++ heading "INTERPRETER")

/-- Evaluates a program in one new scope. -/
def evaluate (fuel : Nat) (p : Program) : Action Unit :=
  match Eval.program fuel 0 p .empty with
  | .ok _ s => write s.output
  | .error stop s => do
    write s.output
    fail stop.toFailure

/-- Runs instructions on a new machine. -/
def execute (fuel : Nat) (code : List Instr) : Action Unit := do
  let (outcome, m) := Machine.empty.run fuel code
  write m.output
  match outcome with
  | .halted => pure ()
  | .failed f => fail f
  | .limit => fail .endless

/-- Compiles a program and lists its instructions. -/
def compile (p : Program) : Action (List Instr) := do
  match Compiler.generate p .empty with
  | .error f _ => fail f
  | .ok _ c =>
    let (text, fault) := Code.listing c.code.toList
    write text
    match fault with
    | none => pure c.code.toList
    | some f => fail (.fault f)

/-- The command for programs. -/
def runScript (fuel : Nat) (source : String) : Action Unit := do
  let tokens ← orFail ScanError.failure (tokenize source)
  let block ← orFail ParseError.failure (Parse.program tokens).toExcept
  write (heading "SOURCE" ++ source ++ "\n")
  showPhases tokens block.outline.plain
  evaluate fuel (.block block)
  write ("\n" ++ heading "CODE GENERATION")
  let code ← compile (.block block)
  execute fuel code

/-- The command for instructions. -/
def writeInstructions (source : String) : Action Unit := do
  let tokens ← orFail ScanError.failure (tokenize source)
  let block ← orFail ParseError.failure (Parse.program tokens).toExcept
  match IR.Building.wholeProgram (.block block) (.start IR.Module.library) with
  | .error stop _ => fail stop.toFailure
  | .ok _ g =>
    let text := IR.Module.text g.state
    modify fun e => { e with written := some text }
    write (text ++ "\n*** LLVM IR generated into main.ll ***\n")

/-- The command for expressions of numbers. -/
def showFormula (source : String) : Action Unit := do
  let tokens ← orFail ScanError.failure (tokenize source)
  let operand ← orFail ParseError.failure (Parse.Binding.parse tokens).toExcept
  let outline := (operand.map Expr.outline).getD (.datum .none)
  showPhases tokens outline.plain
  let value ← orFail id (Numeric.program outline.toProgram)
  write (((value.map Value.toDatum).getD .none).shown ++ "\n")

/-- Runs a command with its arguments; `files` gives the texts of files. -/
def run (fuel : Nat) (files : String → Option String) (c : Command) (args : List String) :
    Action Unit :=
  match args with
  | [name] =>
    match files name with
    | none => throw (.noFile name)
    | some text =>
      let source := Text.withNewlines text
      match c with
      | .script => runScript fuel source
      | .instructions => writeInstructions source
      | .formula => showFormula source
  | _ => throw (.usage c)

/-- Nothing printed or written. -/
def Effects.none : Effects := ⟨"", Option.none⟩

end Command

end ScriptLang
