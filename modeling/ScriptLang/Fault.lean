import ScriptLang.Datum.Basic
import ScriptLang.Number.Numeral
import ScriptLang.Text.Escape

/-!
Faults: the failures that no phase of the language reports with a place in the source.

A fault records its cause; the wording of every cause is in `Fault.message`.
-/

namespace ScriptLang

/-- Divisions without a result. -/
inductive DivisionFault where
  | whole
  | real
  | complex
  | wholeModulo
  | realModulo
  /-- Zero raised to a negative power. -/
  | zeroPower
  /-- Zero raised to a negative or complex power, on complex numbers. -/
  | complexZeroPower
  deriving DecidableEq, Repr

/-- Results past the largest number. -/
inductive OverflowFault where
  | power
  | complexPower
  | conversion
  | quotient
  /-- A number of repetitions that is no machine word. -/
  | count
  /-- Infinity as a whole number. -/
  | infinity
  /-- A width or a precision that is no machine number. -/
  | starWidth
  | starPrecision
  | precision
  /-- A code point past the last one. -/
  | codePoint
  deriving DecidableEq, Repr

/-- Operations on data of kinds that they are not defined for. -/
inductive TypeFault where
  | operands (op left right : String)
  | order (op left right : String)
  | concatenation (left right : String)
  | repetition (other : String)
  | negation (kind : String)
  /-- Arguments that a pattern has no place for. -/
  | unusedArguments
  /-- Places of a pattern that there is no argument for. -/
  | fewArguments
  /-- A place of a pattern that names its argument. -/
  | mapping
  /-- A width or a precision that is no whole number. -/
  | star
  | wholeArgument (letter : Char) (kind : String)
  | realArgument (letter : Char) (kind : String)
  | real (kind : String)
  | character
  | unpacking (kind : String)
  | index (kind : String)
  | ending (kind : String)
  | iteration (kind : String)
  | unhashable (kind : String)
  | notCallable (kind : String)
  | subscript (kind : String)
  /-- An operation that is not named by a text. -/
  | operationName (kind : String)
  /-- An instruction with an operand missing. -/
  | missingOperand (op operand : String)
  /-- An instruction with too many operands; the instruction itself counts as one. -/
  | extraOperands (op : String) (takes given : Nat)
  /-- A step that needs the scope to evaluate in. -/
  | missingScope
  | storeMismatch (value slot : String)
  | argumentMismatch (expected given : String)
  deriving DecidableEq, Repr

/-- Positions outside a sequence. -/
inductive IndexFault where
  | list
  | text
  | assignment
  | pop
  | tuple
  /-- A position that is no machine word. -/
  | wide
  deriving DecidableEq, Repr

/-- Data of the right kind that an operation cannot use. -/
inductive ValueFault where
  | numeral (cause : Number.NumeralError)
  | digits
  | trailingBackslash
  | badHex (position : Nat)
  | tooFewItems (expected given : Nat)
  | tooManyItems (expected : Nat)
  | noOpcode
  | width
  | precision
  | incompletePlace
  /-- A letter that no place ends with. -/
  | placeLetter (letter : Char) (index : Nat)
  /-- What is not a number as a whole number. -/
  | nan
  | operandTypes (left right : String)
  deriving DecidableEq, Repr

/-- A failure and its cause. -/
inductive Fault where
  | division (cause : DivisionFault)
  | overflow (cause : OverflowFault)
  | type (cause : TypeFault)
  | index (cause : IndexFault)
  | value (cause : ValueFault)
  | decoding (cause : Text.Malformed)
  | key (shown : String)
  | attribute (owner name : String)
  /-- A part of a syntax tree that is not of the required form. -/
  | assertion (shown : String)
  deriving DecidableEq, Repr

/-- The wording of a failed division. -/
def DivisionFault.message : DivisionFault → String
  | .whole => "division by zero"
  | .real => "float division by zero"
  | .complex => "complex division by zero"
  | .wholeModulo => "integer modulo by zero"
  | .realModulo => "float modulo"
  | .zeroPower => "0.0 cannot be raised to a negative power"
  | .complexZeroPower => "0.0 to a negative or complex power"

/-- The wording of an overflow. -/
def OverflowFault.message : OverflowFault → String
  | .power => "(34, 'Numerical result out of range')"
  | .complexPower => "complex exponentiation"
  | .conversion => "int too large to convert to float"
  | .quotient => "integer division result too large for a float"
  | .count => "cannot fit 'int' into an index-sized integer"
  | .infinity => "cannot convert float infinity to integer"
  | .starWidth => "Python int too large to convert to C ssize_t"
  | .starPrecision => "Python int too large to convert to C int"
  | .precision => "precision too large"
  | .codePoint => "%c arg not in range(0x110000)"

/-- The wording of a kind mismatch. -/
def TypeFault.message : TypeFault → String
  | .operands op left right =>
    s!"unsupported operand type(s) for {op}: '{left}' and '{right}'"
  | .order op left right =>
    s!"'{op}' not supported between instances of '{left}' and '{right}'"
  | .concatenation left right => s!"can only concatenate {left} (not \"{right}\") to {left}"
  | .repetition other => s!"can't multiply sequence by non-int of type '{other}'"
  | .negation kind => s!"bad operand type for unary -: '{kind}'"
  | .unusedArguments => "not all arguments converted during string formatting"
  | .fewArguments => "not enough arguments for format string"
  | .mapping => "format requires a mapping"
  | .star => "* wants int"
  | .wholeArgument letter kind => s!"%{letter} format: an integer is required, not {kind}"
  | .realArgument letter kind => s!"%{letter} format: a real number is required, not {kind}"
  | .real kind => s!"must be real number, not {kind}"
  | .character => "%c requires int or char"
  | .unpacking kind => s!"cannot unpack non-iterable {kind} object"
  | .index kind => s!"list indices must be integers or slices, not {kind}"
  | .ending kind => s!"end must be None or a string, not {kind}"
  | .iteration kind => s!"'{kind}' object is not iterable"
  | .unhashable kind => s!"unhashable type: '{kind}'"
  | .notCallable kind => s!"'{kind}' object is not callable"
  | .subscript kind => s!"'{kind}' object is not subscriptable"
  | .operationName kind => s!"attribute name must be string, not '{kind}'"
  | .missingOperand op operand =>
    s!"VM.{op}() missing 1 required positional argument: '{operand}'"
  | .extraOperands op takes given =>
    let plural := if takes == 1 then "argument" else "arguments"
    s!"VM.{op}() takes {takes} positional {plural} but {given} were given"
  | .missingScope => "Interpreter.interpret() missing 1 required positional argument: 'env'"
  | .storeMismatch value slot => s!"cannot store {value} to {slot}: mismatching types"
  | .argumentMismatch expected given => s!"Type of #1 arg mismatch: {expected} != {given}"

/-- The wording of a position outside a sequence. -/
def IndexFault.message : IndexFault → String
  | .list => "list index out of range"
  | .text => "string index out of range"
  | .assignment => "list assignment index out of range"
  | .pop => "pop from empty list"
  | .tuple => "tuple index out of range"
  | .wide => "cannot fit 'int' into an index-sized integer"

/-- The wording of a text that is no numeral. The text of a whole numeral is shown with its quotes
and cut to 200 characters. -/
def numeralMessage : Number.NumeralError → String
  | .notWhole text =>
    let cut := String.ofList ((Text.quoted text).toList.take 200)
    s!"invalid literal for int() with base 10: {cut}"
  | .tooLong digits =>
    let limit := Number.maxDigits
    s!"Exceeds the limit ({limit} digits) for integer string conversion: " ++
      s!"value has {digits} digits; use sys.set_int_max_str_digits() to increase the limit"
  | .notReal text =>
    let text := Text.quoted text
    s!"could not convert string to float: {text}"

/-- The wording of an unusable value. -/
def ValueFault.message : ValueFault → String
  | .numeral cause => numeralMessage cause
  | .digits =>
    let limit := Number.maxDigits
    s!"Exceeds the limit ({limit} digits) for integer string conversion; " ++
      "use sys.set_int_max_str_digits() to increase the limit"
  | .trailingBackslash => "Trailing \\ in string"
  | .badHex position => s!"invalid \\x escape at position {position}"
  | .tooFewItems expected given =>
    s!"not enough values to unpack (expected {expected}, got {given})"
  | .tooManyItems expected => s!"too many values to unpack (expected {expected})"
  | .noOpcode => "not enough values to unpack (expected at least 1, got 0)"
  | .width => "width too big"
  | .precision => "precision too big"
  | .incompletePlace => "incomplete format"
  | .placeLetter letter index =>
    let shown := if 31 ≤ letter.toNat && letter.toNat ≤ 126 then letter else '?'
    let code := Text.hex 1 letter.toNat
    s!"unsupported format character '{shown}' (0x{code}) at index {index}"
  | .nan => "cannot convert float NaN to integer"
  | .operandTypes left right => s!"Operands must be the same type, got ({left}, {right})"

/-- What was wrong with octets that are no text. -/
def malformedMessage (m : Text.Malformed) : String :=
  let reason := match m.reason with
    | .start => "invalid start byte"
    | .continuation => "invalid continuation byte"
    | .unfinished => "unexpected end of data"
  let place :=
    if m.count == 1 then
      "byte 0x" ++ Text.hex 2 m.octet.toNat ++ " in position " ++ toString m.position
    else
      "bytes in position " ++ toString m.position ++ "-" ++ toString (m.position + m.count - 1)
  s!"'utf-8' codec can't decode {place}: {reason}"

/-- The wording of a fault. -/
def Fault.message : Fault → String
  | .division cause => cause.message
  | .overflow cause => cause.message
  | .type cause => cause.message
  | .index cause => cause.message
  | .value cause => cause.message
  | .decoding cause => malformedMessage cause
  | .key shown => shown
  | .attribute owner name => s!"'{owner}' object has no attribute '{name}'"
  | .assertion shown => shown

/-- The fault of a text that cannot be printed. -/
def Fault.ofUnescape : Text.UnescapeError → Fault
  | .trailingBackslash => .value .trailingBackslash
  | .badHex position => .value (.badHex position)
  | .malformed cause => .decoding cause

end ScriptLang
