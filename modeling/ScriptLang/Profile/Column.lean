/-!
Columns of printed tables.
-/

namespace ScriptLang.Profile

/-- A text with blanks after it up to a width. -/
def padRight (width : Nat) (s : String) : String :=
  s ++ String.ofList (List.replicate (width - s.length) ' ')

/-- A text with blanks before it up to a width. -/
def padLeft (width : Nat) (s : String) : String :=
  String.ofList (List.replicate (width - s.length) ' ') ++ s

/-- The mark in front of a row. -/
def mark (starred : Bool) : String :=
  if starred then "  * " else "    "

end ScriptLang.Profile
