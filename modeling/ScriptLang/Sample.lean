import ScriptLang.Console

/-!
Sample expressions with their values.

A bare expression is no program: read as one, every sample is refused as a statement that is not a
call. Read as an expression, every sample has the value given with it.
-/

namespace ScriptLang

/-- An expression and its value. -/
structure Sample where
  name : String
  source : String
  expected : Value

namespace Sample

/-- All samples. -/
def all : List Sample :=
  [⟨"number_primary", "7.7", .number (.float 7.7)⟩,
    ⟨"bool_primary", "false", .bool false⟩,
    ⟨"add", "2 + 2", .number (.int 4)⟩,
    ⟨"mul", "2 * 9", .number (.int 18)⟩,
    ⟨"div", "9 / 2", .number (.float 4.5)⟩,
    ⟨"precedence", "2 * 9 + 13", .number (.int 31)⟩,
    ⟨"unary_minus", "2 * 9 - -5", .number (.int 23)⟩,
    ⟨"caret", "2^3^3 - 1", .number (.int 134217727)⟩,
    ⟨"mod", "(2^3^3-1) % 2", .number (.int 1)⟩,
    ⟨"paren_1", "2 * (9 + 13) / 2", .number (.int 22)⟩,
    ⟨"paren_2", "2 * (9 + 13) + 2^2 + (((3 * 3) - 3) + 3.324) / 2.1",
      .number (.float 52.44)⟩,
    ⟨"paren_3", "14 / (12 / 2) / 2", .number (.float 1.1666666666666667)⟩,
    ⟨"bool_or", "true or false", .bool true⟩,
    ⟨"bool_or_and", "(44 >= 2) or false and 1 > 0", .bool true⟩,
    ⟨"not", "~(44 >= 2)", .bool false⟩,
    ⟨"noteq", "~(3 ~= 2)", .bool false⟩,
    ⟨"eqeq", "(3 == 2 + 1)", .bool true⟩]

/-- The sample with a given name. -/
def find? (name : String) : Option Sample :=
  all.find? fun s => s.name == name

/-- Reads a sample as a program. -/
def asProgram (s : Sample) : Failure :=
  Console.readProgram s.source

/-- The message that a value is not the expected one. -/
def mismatch (found expected : Value) : String :=
  found.shown ++ " != " ++ expected.shown

/-- Evaluates a sample as an expression and compares. -/
def check (fuel : Nat) (s : Sample) : Option Failure :=
  match Console.evaluate fuel s.source with
  | .error f => some f
  | .ok v =>
    if v.toDatum.same s.expected.toDatum then none
    else some (.fault (.assertion (mismatch v s.expected)))

end Sample

end ScriptLang
