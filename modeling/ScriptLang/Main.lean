import ScriptLang.Command
import ScriptLang.Console
import ScriptLang.Postfix

/-!
The command line.

A word names the command: `run`, `ir` and `formula` take a file, `calculate` an expression whose
words are separated by blanks, and `console` reads lines until the input ends.
-/

namespace ScriptLang.Main

/-- How many steps a program may take. -/
def stepLimit : Nat := 1_000_000_000_000

/-- The command that a word names. -/
def command? (word : String) : Option Command :=
  match word with
  | "run" => some .script
  | "ir" => some .instructions
  | "formula" => some .formula
  | _ => none

/-- The text of a file, if it can be read. -/
def readFile? (name : String) : IO (Option String) := do
  try
    return some (← IO.FS.readFile name)
  catch _ => return none

/-- Does what a command has printed and written. -/
def perform (e : Command.Effects) : IO Unit := do
  IO.print e.printed
  if let some text := e.written then IO.FS.writeFile Command.instructionFile text

/-- Runs a command with its arguments. -/
def runCommand (c : Command) (args : List String) : IO UInt32 := do
  let texts ← args.mapM fun name => return (name, ← readFile? name)
  let files (name : String) : Option String := (texts.lookup name).join
  match Command.run stepLimit files c args .none with
  | .ok _ e =>
    perform e
    return 0
  | .error t e =>
    perform e
    match t with
    | .failure (.report _) => return 1
    | t =>
      IO.eprintln t.message
      return 1

/-- Evaluates an expression in infix notation. -/
def calculate (text : String) : IO UInt32 := do
  let r := Postfix.calculate text
  IO.print r.printed
  match r.fault with
  | none => return 0
  | some f =>
    IO.eprintln f.message
    return 1

/-- Answers lines until one asks to leave or the input ends. -/
partial def converse (input : IO.FS.Stream) : IO UInt32 := do
  IO.print Console.prompt
  (← IO.getStdout).flush
  let line ← input.getLine
  if line.isEmpty then return 0
  let line := (line.dropEndWhile (· == '\n')).toString
  if Console.isExit line then
    IO.print Console.farewell
    return 0
  match Console.answer stepLimit .expressions line with
  | .ok v => IO.print (Console.valueText v)
  | .error f =>
    if Console.isFatal f then
      IO.print f.printed
      return 1
    IO.print (Console.errorText f)
  converse input

/-- How the program is called. -/
def usage : String :=
  "Usage: scriptlang run FILE | ir FILE | formula FILE | calculate EXPRESSION | console"

end ScriptLang.Main

/-- Runs the command that the first argument names. -/
def main (args : List String) : IO UInt32 := do
  match args with
  | ["console"] =>
    IO.print ScriptLang.Console.welcome
    ScriptLang.Main.converse (← IO.getStdin)
  | ["calculate", text] => ScriptLang.Main.calculate text
  | word :: rest =>
    match ScriptLang.Main.command? word with
    | some c => ScriptLang.Main.runCommand c rest
    | none =>
      IO.eprintln ScriptLang.Main.usage
      return 2
  | [] =>
    IO.eprintln ScriptLang.Main.usage
    return 2
