/-!
White space, and texts cut at it.

The class is the white space of Unicode 14 together with the four separators `U+001C` to `U+001F`.
-/

namespace ScriptLang.Text

/-- White space of any script. -/
def isBlank (c : Char) : Bool :=
  let n := c.toNat
  (0x9 ≤ n && n ≤ 0xd) || (0x1c ≤ n && n ≤ 0x20) || n == 0x85 || n == 0xa0 || n == 0x1680 ||
    (0x2000 ≤ n && n ≤ 0x200a) || n == 0x2028 || n == 0x2029 || n == 0x202f || n == 0x205f ||
    n == 0x3000

/-- Cuts at white space; `word` holds the characters of the current word, last first. -/
def wordsAux : List Char → List Char → List (List Char)
  | [], [] => []
  | [], word => [word.reverse]
  | c :: cs, word =>
    if isBlank c then
      match word with
      | [] => wordsAux cs []
      | _ => word.reverse :: wordsAux cs []
    else wordsAux cs (c :: word)

/-- The maximal runs without white space, in order. -/
def words (s : String) : List String :=
  (wordsAux s.toList []).map String.ofList

/-- A text without the white space at its ends. -/
def trim (s : String) : String :=
  String.ofList ((s.toList.dropWhile isBlank).reverse.dropWhile isBlank).reverse

end ScriptLang.Text
