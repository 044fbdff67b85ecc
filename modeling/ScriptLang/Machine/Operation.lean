import ScriptLang.Datum.Bits
import ScriptLang.Value.Basic

/-!
The machine's operations on values.

An operation looks at the tags of its operands one test after the other and works on the data under
the first test that passes. The tests of each operation stand here in the order in which the machine
makes them.
-/

namespace ScriptLang

namespace Value

/-- Whether two values are tagged as numbers. -/
def bothNumbers (a b : Value) : Bool :=
  match a.tag, b.tag with
  | .number, .number => true
  | _, _ => false

/-- Whether two values are tagged as texts. -/
def bothTexts (a b : Value) : Bool :=
  match a.tag, b.tag with
  | .string, .string => true
  | _, _ => false

/-- Whether two values are tagged as truth values. -/
def bothTruths (a b : Value) : Bool :=
  match a.tag, b.tag with
  | .bool, .bool => true
  | _, _ => false

/-- Whether a value is tagged as a text. -/
def isText (v : Value) : Bool :=
  match v.tag with
  | .string => true
  | _ => false

/-- A bitwise operation on two numbers or two truth values. -/
def bitwise (op : Bitwise) (a b : Value) : Except OperationError Value :=
  match a.tag, b.tag with
  | .number, .number => ((op.onData a.datum b.datum).map Value.number).mapError .fault
  | .bool, .bool => ((op.onData a.datum b.datum).map (⟨.bool, ·⟩)).mapError .fault
  | _, _ => .error .tags

end Value

namespace Machine

/-- The datum that an operation on data yields, under a tag. -/
def tagged (tag : Tag) : Except Fault Datum → Except OperationError Value
  | .ok d => .ok ⟨tag, d⟩
  | .error f => .error (.fault f)

/-- The sum of two numbers, or the joined texts of two data of which one is a text. -/
def sum (a b : Value) : Except OperationError Value :=
  if a.bothNumbers b then tagged .number (a.datum.add b.datum)
  else if a.isText || b.isText then
    tagged .string (do
      let s ← a.datum.stringify
      let t ← b.datum.stringify
      pure (.str (s ++ t)))
  else .error .tags

/-- An operation on two numbers. -/
def arithmetic (f : Datum → Datum → Except Fault Datum) (a b : Value) :
    Except OperationError Value :=
  if a.bothNumbers b then tagged .number (f a.datum b.datum) else .error .tags

/-- A comparison of two numbers or two texts. -/
def comparison (c : Comparison) (a b : Value) : Except OperationError Value :=
  if a.bothNumbers b then tagged .bool ((a.datum.ordered c b.datum).map .bool)
  else if a.bothTexts b then tagged .bool ((a.datum.ordered c b.datum).map .bool)
  else .error .tags

/-- Whether two numbers, two truth values or two texts are the same, or whether they differ. -/
def sameness (differ : Bool) (a b : Value) : Except OperationError Value :=
  if a.bothNumbers b then .ok (.bool (a.datum.same b.datum ^^ differ))
  else if a.bothTruths b then .ok (.bool (a.datum.same b.datum ^^ differ))
  else if a.bothTexts b then .ok (.bool (a.datum.same b.datum ^^ differ))
  else .error .tags

/-- The result of a binary operation. -/
def result : BinaryOp → Value → Value → Except OperationError Value
  | .add => sum
  | .sub => arithmetic Datum.sub
  | .mul => arithmetic Datum.mul
  | .div => arithmetic Datum.div
  | .pow => arithmetic Datum.pow
  | .mod => arithmetic Datum.mod
  | .order c => comparison c
  | .eq => sameness false
  | .ne => sameness true

/-- The negative of a number. -/
def negative (v : Value) : Except OperationError Value :=
  match v.tag with
  | .number => tagged .number v.datum.neg
  | _ => .error .tags

end Machine

end ScriptLang
