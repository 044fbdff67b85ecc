import ScriptLang.Eval.Run
import ScriptLang.Parse.Stmt

/-!
The interactive console.

A line is answered by a value or by an error message; a line that a phase reports ends the session.
In the mode for programs every line that parses is refused, since there is no scope to evaluate it
in; in the mode for expressions each line has a new scope.
-/

namespace ScriptLang

/-- What the lines of a console are. -/
inductive ConsoleMode where
  | programs
  | expressions
  deriving DecidableEq, Repr

namespace Console

/-- The greeting. -/
def welcome : String :=
  "Welcome to the Scripty REPL!\nType 'exit' to quit the REPL.\n"

/-- What asks for a line. -/
def prompt : String := ">>> "

/-- The answer to the line that ends a session. -/
def farewell : String := "Goodbye!\n"

/-- The line ends the session, whatever the case of its letters. Only these letters have lower-case
forms in the word. -/
def isExit (line : String) : Bool :=
  line.map Char.toLower == "exit"

/-- The text of a value. -/
def valueText (v : Value) : String :=
  match v.tag with
  | .number => v.datum.plain ++ "\n"
  | .string => "\"" ++ v.datum.plain ++ "\"\n"
  | .bool => v.datum.plain.map Char.toLower ++ "\n"
  | .other d => "Unknown type: " ++ d.plain ++ "\n"

/-- The text of an error that does not end the session. -/
def errorText (f : Failure) : String :=
  "Error: " ++ f.message ++ "\n"

/-- Reads a line as a program; there is no scope to evaluate it in. -/
def readProgram (line : String) : Failure :=
  match tokenize line with
  | .error e => e.failure
  | .ok tokens =>
    match (Parse.program tokens).toExcept with
    | .error e => e.failure
    | .ok _ => .fault (.type .missingScope)

/-- The value of a line that is an expression. What follows the expression is ignored. -/
def evaluate (fuel : Nat) (line : String) : Except Failure Value :=
  match tokenize line with
  | .error e => .error e.failure
  | .ok tokens =>
    match (Parse.expr (Cursor.ofList tokens)).toExcept with
    | .error e => .error e.failure
    | .ok e =>
      match Eval.program fuel 0 (.expr e) .empty with
      | .error stop _ => .error stop.toFailure
      | .ok none _ => .error (.fault (.type (.unpacking Datum.none.kind)))
      | .ok (some v) _ => .ok v

/-- The answer to a line: a value or a failure. -/
def answer (fuel : Nat) : ConsoleMode → String → Except Failure Value
  | .programs, line => .error (readProgram line)
  | .expressions, line => evaluate fuel line

/-- How a session ends. -/
inductive Ending where
  | exit
  | endOfInput
  | failure (f : Failure)
  deriving DecidableEq, Repr

/-- What a session has printed, how it ended, and how many lines it left unread. -/
structure Session where
  printed : String
  ending : Ending
  unread : Nat
  deriving DecidableEq, Repr

/-- The failure ends the session. -/
def isFatal : Failure → Bool
  | .report _ => true
  | .endless => true
  | _ => false

/-- The rest of a session, after what was printed. -/
def sessionFrom (fuel : Nat) (mode : ConsoleMode) (printed : String) : List String → Session
  | [] => ⟨printed ++ prompt, .endOfInput, 0⟩
  | line :: rest =>
    if isExit line then ⟨printed ++ prompt ++ farewell, .exit, rest.length⟩
    else
      match answer fuel mode line with
      | .ok v => sessionFrom fuel mode (printed ++ prompt ++ valueText v) rest
      | .error f =>
        if isFatal f then ⟨printed ++ prompt ++ f.printed, .failure f, rest.length⟩
        else sessionFrom fuel mode (printed ++ prompt ++ errorText f) rest

/-- A session on the given lines. -/
def session (fuel : Nat) (mode : ConsoleMode) (lines : List String) : Session :=
  sessionFrom fuel mode welcome lines

end Console

end ScriptLang
