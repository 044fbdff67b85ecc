import ScriptLang.Eval.Numeric
import ScriptLang.Eval.Run
import ScriptLang.IR.Basic
import ScriptLang.Machine.Run
import ScriptLang.Code.Compiler
import ScriptLang.Parse.Binding
import ScriptLang.Parse.Stmt
import ScriptLang.Postfix
import ScriptLang.Tree.Outline

/-!
Workloads: work of each kind that the language does, in an amount that can be chosen.

A workload repeats its work on sample texts and returns what it computed, so that its result shows
that the work was done. Amounts below zero count as zero. Some workloads end with the last thing
they made, and fail when there is none.
-/

namespace ScriptLang

/-- The texts that workloads work on. -/
structure Samples where
  /-- A text to scan. -/
  phrase : String
  /-- A program to compile and to outline. -/
  script : String
  /-- A program that counts up to a number. -/
  counting : Nat → String
  /-- What is put after it: a loop that counts from one, up or down, to a number. -/
  summing : Int → String
  /-- Formulas to evaluate, in turn. -/
  formulas : List String
  /-- An expression in infix notation. -/
  infixText : String

namespace Samples

/-- The sample texts. -/
def standard : Samples where
  phrase := "(first + 2.5) * second >= 'third' and ~fourth ~= \"fifth\" -- sixth\n"
  script :=
    "pi := 3.141592\n" ++
    "func area(radius)\n" ++
    "  ret pi * radius ^ 2\n" ++
    "end\n" ++
    "func factorial(n)\n" ++
    "  if n <= 1 then\n" ++
    "    ret 1\n" ++
    "  else\n" ++
    "    ret n * factorial(n - 1)\n" ++
    "  end\n" ++
    "end\n" ++
    "total := 0\n" ++
    "for k := 1, 5 do\n" ++
    "  total := total + factorial(k) % 7\n" ++
    "end\n" ++
    "while total > 1 and true do\n" ++
    "  total := total / 2\n" ++
    "end\n" ++
    "println \"The area is \" + area(total)\n"
  counting n :=
    "pi := 3.141592\n" ++
    "name := \"Alice\"\n" ++
    "found := true\n" ++
    "friend := \"Bob\"\n" ++
    "width := 2 + 5 * 2.5\n" ++
    "count := 0\n" ++
    "total := 0\n" ++
    "while count < " ++ toString n ++ " do\n" ++
    "  count := count + 1\n" ++
    "  total := total + count\n" ++
    "end\n"
  summing n :=
    "for k := 1, " ++ toString n ++ " do\n" ++
    "  total := total + k\n" ++
    "end\n"
  formulas := ["1 + 2 + 3", "2 * (3 - 4)", "-2 ^ 2 ^ 3", "7 / 4 - 1.5"]
  infixText := "( 3 + 4 ) * 2 / ( ( 1 - ( 5 ) ) ^ 2 ) ^ 3 + 4"

end Samples

/-- The kinds of workloads. -/
inductive Workload where
  /-- Scans a text. -/
  | scan
  /-- Parses a program. -/
  | parse
  /-- Evaluates a program. -/
  | evaluate
  /-- Compiles a program. -/
  | compile
  /-- Runs a compiled program. -/
  | execute
  /-- Outlines a program. -/
  | outline
  /-- Evaluates formulas. -/
  | formulas
  /-- Outlines formulas, and shows a token. -/
  | formulaOutlines
  /-- Converts an expression to postfix notation. -/
  | convert
  /-- Makes a constant of the numbered instructions. -/
  | constant
  deriving DecidableEq, Repr

namespace Workload

/-- When a workload fails. -/
inductive Stage where
  | setup
  | run
  deriving DecidableEq, Repr

/-- What a workload returns, or when and why it fails. -/
abbrev Yield := Except (Stage × Failure) Datum

/-- The text repeated `n` times. -/
def repeated (n : Nat) (text : String) : String :=
  String.join (List.replicate n text)

/-- The program that a text is. -/
def parsed (text : String) : Except Failure Block := do
  let tokens ← (tokenize text).mapError ScanError.failure
  (Parse.program tokens).toExcept.mapError ParseError.failure

/-- The formula that a text is. -/
def parsedFormula (text : String) : Except Failure (Option Expr) := do
  let tokens ← (tokenize text).mapError ScanError.failure
  (Parse.Binding.parse tokens).toExcept.mapError ParseError.failure

/-- The code of a program. -/
def compiled (text : String) : Except Failure (List Instr) := do
  let b ← parsed text
  match Compiler.generate (.block b) Compiler.empty with
  | .ok _ c => .ok c.code.toList
  | .error f _ => .error f

/-- A failure while a workload runs. -/
def running (r : Except Failure Datum) : Yield :=
  r.mapError fun f => (.run, f)

/-- The first token, the kind of the last and their number, of a text that ends in an equals
sign. -/
def scanned (text : String) : Except Failure Datum := do
  let tokens ← (tokenize (text ++ "=")).mapError ScanError.failure
  .ok (.tuple [.str ((tokens.head?.map Token.shown).getD ""),
    .str ((tokens.getLast?.map fun t => t.kind.name).getD ""), .int tokens.length])

/-- How many instructions the machine may take for each number that is counted. -/
def stepsEach : Nat := 100

/-- The global variables after a program has been run. -/
def executed (n : Nat) (text : String) : Except Failure Datum := do
  let code ← compiled text
  match Machine.run (stepsEach * (n + 1)) code Machine.empty with
  | (.failed f, _) => .error f
  | (_, m) => .ok (.tuple (m.globals.map fun g => .tuple [g.1.toDatum, g.2.toDatum]))

/-- How many steps the evaluator may take for each number that is counted. -/
def fuelEach : Nat := 1000

/-- The variable that programs sum up in. -/
def sumName : String := "total"

/-- What a program has summed up. -/
def evaluated (n : Nat) (text : String) : Except Failure Datum := do
  let b ← parsed text
  match Eval.program (fuelEach * (n + 1)) 0 (.block b) .empty with
  | .error stop _ => .error stop.toFailure
  | .ok _ s => .ok (((s.forest.getVar 0 sumName).map Value.toDatum).getD .none)

/-- How much of an outline is shown. -/
def shownLength : Nat := 64

/-- How values of each kind are printed. -/
def printedKinds (name : String) (x y : Float) : Datum :=
  .tuple ([Datum.bool true, .bool false, .float x, .float y, .str name].map fun d =>
    .str ((d.stringify.toOption).getD ""))

/-- The length of an outline, how values are printed, and the start of the outline. -/
def outlined (text : String) : Except Failure Datum := do
  let outline := (← parsed text).outline.plain
  .ok (.tuple [.int outline.length, printedKinds "x" 3.0 3.5,
    .str (outline.take shownLength).toString])

/-- The value of a formula. -/
def valueOf (text : String) : Except Failure Datum := do
  match ← parsedFormula text with
  | none => .ok .none
  | some e =>
    let v ← Numeric.program (.expr e)
    .ok ((v.map Value.toDatum).getD .none)

/-- The outline of a formula. -/
def outlineOf (text : String) : Except Failure Datum := do
  .ok (.str (((← parsedFormula text).map fun e => e.outline.plain).getD ""))

/-- The first `n` of some texts taken in turn. -/
def inTurn (n : Nat) (texts : List String) : List String :=
  (List.range n).filterMap fun i => texts[i % texts.length]?

/-- The failure of taking the last of what was not made. -/
def noItem : Failure := .fault (.index .list)

/-- Does the work of a workload `n` times. -/
def run (s : Samples) (n : Int) : Workload → Yield
  | .scan => running (scanned (repeated n.toNat s.phrase))
  | .parse =>
    running ((parsed (repeated n.toNat s.script)).map fun b => .int b.stmts.length)
  | .evaluate => running (evaluated n.natAbs (s.counting n.toNat ++ s.summing n))
  | .compile =>
    if n ≤ 0 then .error (.run, .fault (.attribute Datum.none.kind "print_code"))
    else running ((compiled s.script).map fun code => .int (n * code.length))
  | .execute => running (executed n.toNat (s.counting n.toNat))
  | .outline =>
    if n ≤ 0 then .error (.setup, noItem) else running (outlined (repeated n.toNat s.script))
  | .formulas =>
    if n ≤ 0 then .error (.run, noItem)
    else running (((inTurn n.toNat s.formulas).mapM valueOf).map .tuple)
  | .formulaOutlines =>
    running (((inTurn n.toNat s.formulas).mapM outlineOf).map fun texts =>
      .tuple (texts ++ [.str (Token.shown ⟨.plus, "+", 1⟩)]))
  | .convert =>
    let words := (Postfix.calculate s.infixText).postfixWords
    .ok (.tuple (List.replicate n.toNat (.tuple (words.map Datum.str))))
  | .constant =>
    .ok (.tuple [Tag.number.toDatum,
      .str ("double " ++ IR.realText (Number.nearest (n < 0) n.natAbs 1))])

end Workload

end ScriptLang
