/-!
The indented form of a text with parentheses.

A line ends after every opening parenthesis and before every closing one, and what follows is
indented by two columns for each parenthesis that is open. A closing parenthesis too many indents
by a negative number of columns, which is none.
-/

namespace ScriptLang.Text

/-- Some spaces; none if the number is negative. -/
def spaces (n : Int) : List Char :=
  List.replicate n.toNat ' '

/-- The rest of an indented text, at indentation `depth`; `fresh` says that a line has just
begun. -/
def indentedFrom : List Char → Int → Bool → List Char
  | [], _, _ => []
  | '(' :: rest, depth, _ => '(' :: '\n' :: indentedFrom rest (depth + 2) true
  | ')' :: rest, depth, fresh =>
    (if fresh then [] else ['\n']) ++ spaces (depth - 2) ++
      ')' :: '\n' :: indentedFrom rest (depth - 2) true
  | c :: rest, depth, fresh =>
    (if fresh then spaces depth else []) ++ c :: indentedFrom rest depth false

/-- The indented form of a text. -/
def indented (text : String) : String :=
  String.ofList (indentedFrom text.toList 0 false)

end ScriptLang.Text
