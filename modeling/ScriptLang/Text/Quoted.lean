import ScriptLang.Text.Printable

/-!
Quoted texts: how names, lexemes and string values are shown in messages and listings.

A text stands between single quotes, or between double quotes if it holds a single quote and no
double quote. The quote itself, the backslash and what is not printable are written as escapes.
-/

namespace ScriptLang.Text

/-- Lower-case hexadecimal digits, with zeros in front up to `width`. -/
def hex (width n : Nat) : String :=
  let digits := Nat.toDigits 16 n
  String.ofList (List.replicate (width - digits.length) '0' ++ digits)

/-- The quote that surrounds a text. -/
def quoteFor (s : String) : Char :=
  if s.toList.contains '\'' && !s.toList.contains '"' then '"' else '\''

/-- One character of a text between the quotes `q`. -/
def quotedChar (q c : Char) : String :=
  if c == q || c == '\\' then String.ofList ['\\', c]
  else if c == '\n' then "\\n"
  else if c == '\t' then "\\t"
  else if c == '\r' then "\\r"
  else if isPrintable c then String.singleton c
  else if c.toNat ≤ 0xff then "\\x" ++ hex 2 c.toNat
  else if c.toNat ≤ 0xffff then "\\u" ++ hex 4 c.toNat
  else "\\U" ++ hex 8 c.toNat

/-- A text as it is shown, quotes included. -/
def quoted (s : String) : String :=
  let q := quoteFor s
  (s.toList.foldl (fun shown c => shown ++ quotedChar q c) (String.singleton q)).push q

end ScriptLang.Text
