import ScriptLang.Datum.Arith
import ScriptLang.Datum.Order
import ScriptLang.Token.Basic

/-!
Values: data with a tag.

The tag decides which operations apply; the operations themselves work on the data. A tag does not
have to tell the truth about its datum, so an operation that the tags allow can still fail on the
data. The operations of this module are the tree evaluator's; the machine has its own.
-/

namespace ScriptLang

/-- The tag of a value. -/
inductive Tag where
  | number
  | string
  | bool
  /-- A tag that no operation knows. -/
  | other (d : Datum)

namespace Tag

/-- A tag as a datum. -/
def toDatum : Tag → Datum
  | .number => .str "TYPE_NUMBER"
  | .string => .str "TYPE_STRING"
  | .bool => .str "TYPE_BOOL"
  | .other d => d

/-- The tag that a datum names. -/
def ofDatum : Datum → Tag
  | .str "TYPE_NUMBER" => .number
  | .str "TYPE_STRING" => .string
  | .str "TYPE_BOOL" => .bool
  | d => .other d

/-- A tag in a message. -/
def plain (t : Tag) : String := t.toDatum.plain

end Tag

/-- A tagged datum. -/
structure Value where
  tag : Tag
  datum : Datum

namespace Value

/-- A value as a datum. -/
def toDatum (v : Value) : Datum :=
  .tuple [v.tag.toDatum, v.datum]

/-- A value as it is shown. -/
def shown (v : Value) : String := v.toDatum.shown

def number (d : Datum) : Value := ⟨.number, d⟩

def string (s : String) : Value := ⟨.string, .str s⟩

def bool (b : Bool) : Value := ⟨.bool, .bool b⟩

/-- What a function yields that ends without returning a value. -/
def nothing : Value := ⟨.number, .int 0⟩

end Value

/-- Why an operation on values has no result. -/
inductive OperationError where
  /-- The tags do not allow the operation. -/
  | tags
  | fault (f : Fault)

/-- The binary operations. -/
inductive BinaryOp where
  | add
  | sub
  | mul
  | div
  | mod
  | pow
  | order (c : Comparison)
  | eq
  | ne
  deriving DecidableEq, Repr

namespace BinaryOp

/-- The operation that an operator stands for. -/
def ofKind? : Kind → Option BinaryOp
  | .plus => some .add
  | .minus => some .sub
  | .star => some .mul
  | .slash => some .div
  | .percent => some .mod
  | .caret => some .pow
  | .gt => some (.order .gt)
  | .ge => some (.order .ge)
  | .lt => some (.order .lt)
  | .le => some (.order .le)
  | .eqeq => some .eq
  | .ne => some .ne
  | _ => none

/-- A number from the data of two numbers. -/
def onNumbers (f : Datum → Datum → Except Fault Datum) (a b : Value) :
    Except OperationError Value :=
  match a.tag, b.tag with
  | .number, .number => ((f a.datum b.datum).map Value.number).mapError .fault
  | _, _ => .error .tags

/-- The joined texts of two data. -/
def join (a b : Datum) : Except Fault String :=
  match a.stringify with
  | .error e => .error e
  | .ok s => b.stringify.map (s ++ ·)

/-- Applies an operation. Joining needs one text, order needs two numbers or two texts, equality
two equal tags. -/
def apply : BinaryOp → Value → Value → Except OperationError Value
  | .add, a, b =>
    match a.tag, b.tag with
    | .number, .number => ((a.datum.add b.datum).map Value.number).mapError .fault
    | .string, _ => ((join a.datum b.datum).map Value.string).mapError .fault
    | _, .string => ((join a.datum b.datum).map Value.string).mapError .fault
    | _, _ => .error .tags
  | .sub, a, b => onNumbers Datum.sub a b
  | .mul, a, b => onNumbers Datum.mul a b
  | .div, a, b => onNumbers Datum.div a b
  | .mod, a, b => onNumbers Datum.mod a b
  | .pow, a, b => onNumbers Datum.pow a b
  | .order c, a, b =>
    match a.tag, b.tag with
    | .number, .number => ((a.datum.ordered c b.datum).map Value.bool).mapError .fault
    | .string, .string => ((a.datum.ordered c b.datum).map Value.bool).mapError .fault
    | _, _ => .error .tags
  | .eq, a, b =>
    match a.tag, b.tag with
    | .number, .number | .string, .string | .bool, .bool => .ok (.bool (a.datum.same b.datum))
    | _, _ => .error .tags
  | .ne, a, b =>
    match a.tag, b.tag with
    | .number, .number | .string, .string | .bool, .bool => .ok (.bool (!a.datum.same b.datum))
    | _, _ => .error .tags

end BinaryOp

namespace Value

/-- The negative of a number. -/
def neg (v : Value) : Except OperationError Value :=
  match v.tag with
  | .number => (v.datum.neg.map Value.number).mapError .fault
  | _ => .error .tags

/-- The text that printing a value shows, escapes resolved. -/
def printed (d : Datum) : Except Fault String :=
  match d.stringify with
  | .error e => .error e
  | .ok s => (Text.unescape s).mapError Fault.ofUnescape

end Value

end ScriptLang
