/-!
Line breaks of text files.
-/

namespace ScriptLang.Text

/-- The characters with every line break written as one newline: a carriage return counts as a line
break, with the newline after it if one follows. -/
def newlines : List Char → List Char
  | [] => []
  | '\r' :: '\n' :: rest => '\n' :: newlines rest
  | '\r' :: rest => '\n' :: newlines rest
  | c :: rest => c :: newlines rest

/-- The text with every line break written as one newline. -/
def withNewlines (text : String) : String :=
  String.ofList (newlines text.toList)

end ScriptLang.Text
