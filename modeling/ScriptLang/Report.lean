import ScriptLang.Parse.Cursor
import ScriptLang.Token.Scanner

/-!
Reports: messages about a program with the place they refer to.

A phase of the language that refuses a program prints one report and stops. Failures that carry no
report are faults, and a value that is returned outside every function.
-/

namespace ScriptLang

/-- What a report refers to. -/
inductive Place where
  | line (n : Line)
  /-- An instruction of compiled code. -/
  | address (n : Int)
  deriving DecidableEq, Repr

/-- A message and its place. -/
structure Report where
  place : Place
  text : String
  deriving DecidableEq, Repr

/-- The letter colours of a terminal. -/
structure Colour where
  code : String

namespace Colour

/-- The usual colour. -/
def normal : Colour := ⟨"\x1b[0m"⟩

/-- The colour of headings. -/
def green : Colour := ⟨"\x1b[92m"⟩

/-- The colour of reports. -/
def red : Colour := ⟨"\x1b[91m"⟩

end Colour

namespace Place

/-- A place in square brackets. -/
def shown : Place → String
  | .line n => "[Line " ++ toString n ++ "]"
  | .address n => "[PC: " ++ toString n ++ "]"

end Place

namespace Report

/-- A report about a line. -/
def atLine (line : Line) (text : String) : Report := ⟨.line line, text⟩

/-- The printed report. -/
def printed (r : Report) : String :=
  Colour.red.code ++ r.place.shown ++ ": " ++ r.text ++ " " ++ Colour.normal.code ++ "\n"

end Report

/-- How a phase fails. -/
inductive Failure where
  /-- The report is printed and the program ends. -/
  | report (r : Report)
  | fault (f : Fault)
  /-- A value was returned outside every function. -/
  | returned (shown : String)
  /-- The phase never ends. -/
  | endless
  deriving DecidableEq, Repr

namespace Failure

/-- The text a failure prints by itself. -/
def printed : Failure → String
  | .report r => r.printed
  | _ => ""

/-- The wording of a failure. A report has been printed already, and what is left of it is the
status that the program ends with. -/
def message : Failure → String
  | .report _ => "1"
  | .fault f => f.message
  | .returned shown => shown
  | .endless => ""

end Failure

/-- How scanning fails. -/
def ScanError.failure : ScanError → Failure
  | .unexpected c line =>
    .report (.atLine line
      ("Error at " ++ Text.quoted (String.singleton c) ++ ": Unexpected character."))
  | .unterminated line => .report (.atLine line "Unterminated string.")
  | .pastEnd => .fault (.index .text)

/-- How parsing fails. -/
def ParseError.failure : ParseError → Failure
  | .expected kind found line =>
    .report (.atLine line
      ("Expected " ++ Text.quoted kind.name ++ ", found " ++ Text.quoted found ++ "."))
  | .ended last line =>
    .report (.atLine line ("Found " ++ Text.quoted last ++ " at the end of parsing"))
  | .unclosed line => .report (.atLine line "Error: \")\" expected.")
  | .tooManyParams line =>
    .report (.atLine line "Functions cannot have more than 255 parameters.")
  | .noToken => .fault (.index .list)
  | .numeral cause => .fault (.value (.numeral cause))
  | .notCall e => .fault (.assertion e.outline.shown)
  | .notName e => .fault (.assertion e.outline.shown)
  | .noPower lexeme => .fault (.key (Text.quoted lexeme))
  | .noOperand => .fault (.assertion Datum.none.shown)
  | .stalled => .endless

end ScriptLang
