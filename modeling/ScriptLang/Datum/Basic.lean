import ScriptLang.Number.Display
import ScriptLang.Text.Quoted

/-!
Data that programs compute with.

A datum is a truth value, a whole, real or complex number, a text, nothing, or a fixed sequence of
data. Data carry no declared type: what an operation accepts depends on the kinds of its operands.
-/

namespace ScriptLang

/-- A piece of data. -/
inductive Datum where
  | none
  | bool (b : Bool)
  | int (i : Int)
  | float (x : Float)
  | complex (re im : Float)
  | str (s : String)
  | tuple (items : List Datum)
  deriving Inhabited

namespace Datum

/-- The name of a datum's kind, as messages give it. -/
def kind : Datum → String
  | .none => "NoneType"
  | .bool _ => "bool"
  | .int _ => "int"
  | .float _ => "float"
  | .complex _ _ => "complex"
  | .str _ => "str"
  | .tuple _ => "tuple"

/-- The text of a sequence from those of its items: a single item is followed by a comma. -/
def sequenceShown : List String → String
  | [item] => "(" ++ item ++ ",)"
  | items => "(" ++ ", ".intercalate items ++ ")"

mutual
/-- A datum as it is shown inside other data: texts are quoted. -/
def shown : Datum → String
  | .none => "None"
  | .bool b => if b then "True" else "False"
  | .int i => toString i
  | .float x => Number.showReal x
  | .complex re im => Number.showComplex re im
  | .str s => Text.quoted s
  | .tuple items => sequenceShown (shownAll items)

/-- The items of a sequence as they are shown. -/
def shownAll : List Datum → List String
  | [] => []
  | d :: ds => d.shown :: shownAll ds
end

/-- A datum standing alone: a text is not quoted. -/
def plain : Datum → String
  | .str s => s
  | d => d.shown

/-- Everything but nothing, falsity, zero, the empty text and the empty sequence. -/
def truthy : Datum → Bool
  | .none => false
  | .bool b => b
  | .int i => i != 0
  | .float x => x != 0.0
  | .complex re im => re != 0.0 || im != 0.0
  | .str s => !s.isEmpty
  | .tuple items => !items.isEmpty

end Datum

/-- A number of one of the three numeric kinds. -/
inductive Num where
  | whole (i : Int)
  | real (x : Float)
  | complex (re im : Float)

namespace Num

/-- A number as a datum. -/
def toDatum : Num → Datum
  | .whole i => .int i
  | .real x => .float x
  | .complex re im => .complex re im

end Num

/-- The number a datum stands for in arithmetic; truth values count as zero and one. -/
def Datum.num? : Datum → Option Num
  | .bool b => some (.whole (if b then 1 else 0))
  | .int i => some (.whole i)
  | .float x => some (.real x)
  | .complex re im => some (.complex re im)
  | _ => Option.none

end ScriptLang
