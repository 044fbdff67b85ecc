import ScriptLang.Number.Display
import ScriptLang.Table
import ScriptLang.Text.Quoted

/-!
JSON documents, and how they are written.

A document keeps whole numbers apart from real ones and the fields of an object in their order. A
written document is ASCII: every other character is an escape of its UTF-16 units.
-/

namespace ScriptLang

/-- A JSON document. -/
inductive Json where
  | null
  | bool (value : Bool)
  | int (value : Int)
  | real (value : Float)
  | str (value : String)
  | arr (items : List Json)
  | obj (fields : List (String × Json))
  deriving Inhabited

namespace Json

/-- The fields of an object; other documents have none. -/
def fields : Json → Table Json
  | .obj fields => fields
  | _ => []

/-- The items of an array; other documents have none. -/
def items : Json → List Json
  | .arr items => items
  | _ => []

/-- The field of an object under a name. -/
def field? (j : Json) (name : String) : Option Json :=
  j.fields.lookup? name

/-- The field of an object under a name, null without one. -/
def field (j : Json) (name : String) : Json :=
  (j.field? name).getD .null

/-- A document that holds fields. -/
def isObj : Json → Bool
  | .obj _ => true
  | _ => false

/-- The text of a string. -/
def str? : Json → Option String
  | .str s => some s
  | _ => none

/-- A number as a whole number, cut toward zero. -/
def int? : Json → Option Int
  | .int i => some i
  | .real x => Number.toInt? (if x < 0 then x.ceil else x.floor)
  | _ => none

/-- A number as a real one. -/
def real? : Json → Option Float
  | .int i => Number.ofInt? i
  | .real x => some x
  | _ => none

/-! ### Writing -/

/-- A UTF-16 unit as an escape. -/
def unitEscape (n : Nat) : String :=
  "\\u" ++ Text.hex 4 n

/-- One character of a string. -/
def charText (c : Char) : String :=
  let n := c.toNat
  if c == '"' then "\\\""
  else if c == '\\' then "\\\\"
  else if c == '\n' then "\\n"
  else if c == '\r' then "\\r"
  else if c == '\t' then "\\t"
  else if n == 8 then "\\b"
  else if n == 12 then "\\f"
  else if 0x20 ≤ n && n < 0x7f then String.singleton c
  else if n < 0x10000 then unitEscape n
  else unitEscape (0xd800 + (n - 0x10000) / 0x400) ++ unitEscape (0xdc00 + (n - 0x10000) % 0x400)

/-- A string with its quotes. -/
def strText (s : String) : String :=
  (s.toList.foldl (fun text c => text ++ charText c) "\"").push '"'

/-- A real number. -/
def realText (x : Float) : String :=
  match Number.unpack x with
  | .nan => "NaN"
  | .infinite negative => if negative then "-Infinity" else "Infinity"
  | .finite _ => Number.showReal x

mutual

/-- A document on one line, a blank after each comma and each colon. -/
def text : Json → String
  | .null => "null"
  | .bool b => if b then "true" else "false"
  | .int i => toString i
  | .real x => realText x
  | .str s => strText s
  | .arr items => "[" ++ ", ".intercalate (itemTexts items) ++ "]"
  | .obj fields => "\x7b" ++ ", ".intercalate (fieldTexts fields) ++ "\x7d"

/-- The items of an array, each written. -/
def itemTexts : List Json → List String
  | [] => []
  | j :: rest => j.text :: itemTexts rest

/-- The fields of an object, each written. -/
def fieldTexts : List (String × Json) → List String
  | [] => []
  | (name, j) :: rest => (strText name ++ ": " ++ j.text) :: fieldTexts rest

end

end Json

end ScriptLang
