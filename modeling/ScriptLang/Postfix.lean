import ScriptLang.Datum.Arith
import ScriptLang.Number.Numeral
import ScriptLang.Text.Blank

/-!
Infix and postfix notation.

An expression in infix notation is a row of words. The conversion keeps operators and opening
parentheses that wait for their place on a stack; it never fails, whatever the words are. An
expression in postfix notation is evaluated on a stack of numbers.
-/

namespace ScriptLang.Infix

/-- The rank of an operator; those with a higher rank bind tighter. -/
def rank? (word : String) : Option Nat :=
  match word with
  | "^" => some 4
  | "*" | "/" => some 3
  | "+" | "-" => some 2
  | _ => none

/-- The operator nests to the right. -/
def nestsRight (word : String) : Bool := word == "^"

/-- A conversion under way. -/
structure Conversion where
  /-- The words placed so far, last first. -/
  placed : List String
  /-- Operators and opening parentheses that wait, last first. -/
  waiting : List String
  deriving DecidableEq, Repr

namespace Conversion

/-- Nothing has been read. -/
def empty : Conversion := ⟨[], []⟩

/-- Places all that waits, down to an opening parenthesis, which is dropped. -/
def close : List String → List String → Conversion
  | placed, [] => ⟨placed, []⟩
  | placed, op :: waiting => if op == "(" then ⟨placed, waiting⟩ else close (op :: placed) waiting

/-- Whether the operator `op`, which waits, is placed before a new operator waits. -/
def yields (word : String) (rank : Nat) (op : String) : Bool :=
  if op == "(" then false
  else
    match rank? op with
    | none => false
    | some r => !(decide (r < rank) || (nestsRight word && rank == r))

/-- Places what yields to an operator and lets the operator wait. -/
def operator (word : String) (rank : Nat) : List String → List String → Conversion
  | placed, [] => ⟨placed, [word]⟩
  | placed, op :: waiting =>
    if yields word rank op then operator word rank (op :: placed) waiting
    else ⟨placed, word :: op :: waiting⟩

/-- Reads a word. -/
def read (c : Conversion) (word : String) : Conversion :=
  if word == "(" then { c with waiting := word :: c.waiting }
  else if word == ")" then close c.placed c.waiting
  else
    match rank? word with
    | some rank => operator word rank c.placed c.waiting
    | none => { c with placed := word :: c.placed }

/-- All words, what still waits included. -/
def finish (c : Conversion) : List String :=
  c.placed.reverse ++ c.waiting

end Conversion

/-- The postfix notation of a row of words. -/
def toPostfix (words : List String) : List String :=
  (words.foldl Conversion.read .empty).finish

end ScriptLang.Infix

namespace ScriptLang.Postfix

/-- A computation on a stack of numbers, the top first. -/
abbrev OnStack := EStateM Fault (List Datum)

/-- Takes the top of the stack. -/
def pop : OnStack Datum := fun stack =>
  match stack with
  | [] => .error (.index .pop) []
  | d :: rest => .ok d rest

/-- Puts a number on the stack. -/
def push (d : Datum) : OnStack Unit :=
  modify fun stack => d :: stack

/-- The result of an operation that may fault. -/
def lift : Except Fault Datum → OnStack Datum
  | .ok d => pure d
  | .error f => throw f

/-- Applies an operator. -/
def apply (op : String) (left right : Datum) : Except Fault Datum :=
  match op with
  | "+" => left.add right
  | "-" => left.sub right
  | "*" => left.mul right
  | "/" => left.div right
  | _ => left.pow right

/-- Evaluates a word. -/
def word (w : String) : OnStack Unit := do
  match Infix.rank? w with
  | none =>
    match Number.readReal w with
    | .ok x => push (.float x)
    | .error e => throw (.value (.numeral e))
  | some _ =>
    let right ← pop
    let left ← pop
    push (← lift (apply w left right))

/-- Evaluates words in order. -/
def words : List String → OnStack Unit
  | [] => pure ()
  | w :: ws => do
    word w
    words ws

/-- Evaluates an expression in postfix notation. The result leaves the stack. -/
def evaluate (ws : List String) : OnStack Datum := do
  words ws
  pop

/-- A postfix notation with its heading. -/
def heading (ws : List String) : String :=
  "POSTFIX (RPN): " ++ ",".intercalate ws ++ "\n"

/-- A result with its heading. -/
def resultLine (d : Datum) : String :=
  "RESULT: " ++ d.plain ++ "\n"

/-- What converting and evaluating an expression yields. -/
structure Calculation where
  postfixWords : List String
  printed : String
  fault : Option Fault
  /-- The stack at the end, the top first. -/
  left : List Datum

/-- Converts an expression in infix notation, whose words are separated by blanks, and evaluates
it. -/
def calculate (text : String) : Calculation :=
  let ws := Infix.toPostfix (Text.words text)
  match evaluate ws [] with
  | .ok d left => ⟨ws, heading ws ++ resultLine d, none, left⟩
  | .error f left => ⟨ws, heading ws, some f, left⟩

end ScriptLang.Postfix
