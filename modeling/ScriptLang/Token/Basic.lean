import ScriptLang.Text.Quoted

/-!
Tokens: the words of a program, each with its kind, its text and the line it stands on.
-/

namespace ScriptLang

/-- A line of a source text, counted from one. -/
abbrev Line := Int

/-- Kinds of tokens. -/
inductive Kind where
  | lparen
  | rparen
  | lcurly
  | rcurly
  | lsquare
  | rsquare
  | comma
  | dot
  | plus
  | minus
  | star
  | slash
  | caret
  | percent
  | colon
  | semicolon
  | question
  | tilde
  | gt
  | lt
  | eq
  | ge
  | le
  | ne
  | eqeq
  | assign
  | identifier
  | string
  | integer
  | float
  | kwIf
  | kwThen
  | kwElse
  | kwTrue
  | kwFalse
  | kwAnd
  | kwOr
  | kwLocal
  | kwWhile
  | kwDo
  | kwFor
  | kwFunc
  | kwNull
  | kwEnd
  | kwPrint
  | kwPrintln
  | kwRet
  /-- A kind that no rule of the language uses. -/
  | other (name : String)
  deriving DecidableEq, Repr, Inhabited

namespace Kind

/-- The name of a kind, as messages give it. -/
def name : Kind → String
  | .lparen => "TOK_LPAREN"
  | .rparen => "TOK_RPAREN"
  | .lcurly => "TOK_LCURLY"
  | .rcurly => "TOK_RCURLY"
  | .lsquare => "TOK_LSQUAR"
  | .rsquare => "TOK_RSQUAR"
  | .comma => "TOK_COMMA"
  | .dot => "TOK_DOT"
  | .plus => "TOK_PLUS"
  | .minus => "TOK_MINUS"
  | .star => "TOK_STAR"
  | .slash => "TOK_SLASH"
  | .caret => "TOK_CARET"
  | .percent => "TOK_MOD"
  | .colon => "TOK_COLON"
  | .semicolon => "TOK_SEMICOLON"
  | .question => "TOK_QUESTION"
  | .tilde => "TOK_NOT"
  | .gt => "TOK_GT"
  | .lt => "TOK_LT"
  | .eq => "TOK_EQ"
  | .ge => "TOK_GE"
  | .le => "TOK_LE"
  | .ne => "TOK_NE"
  | .eqeq => "TOK_EQEQ"
  | .assign => "TOK_ASSIGN"
  | .identifier => "TOK_IDENTIFIER"
  | .string => "TOK_STRING"
  | .integer => "TOK_INTEGER"
  | .float => "TOK_FLOAT"
  | .kwIf => "TOK_IF"
  | .kwThen => "TOK_THEN"
  | .kwElse => "TOK_ELSE"
  | .kwTrue => "TOK_TRUE"
  | .kwFalse => "TOK_FALSE"
  | .kwAnd => "TOK_AND"
  | .kwOr => "TOK_OR"
  | .kwLocal => "TOK_LOCAL"
  | .kwWhile => "TOK_WHILE"
  | .kwDo => "TOK_DO"
  | .kwFor => "TOK_FOR"
  | .kwFunc => "TOK_FUNC"
  | .kwNull => "TOK_NULL"
  | .kwEnd => "TOK_END"
  | .kwPrint => "TOK_PRINT"
  | .kwPrintln => "TOK_PRINTLN"
  | .kwRet => "TOK_RET"
  | .other name => name

/-- The kinds that the language uses. -/
def all : List Kind :=
  [.lparen, .rparen, .lcurly, .rcurly, .lsquare, .rsquare, .comma, .dot, .plus, .minus, .star,
   .slash, .caret, .percent, .colon, .semicolon, .question, .tilde, .gt, .lt, .eq, .ge,
   .le, .ne, .eqeq, .assign, .identifier, .string, .integer, .float, .kwIf, .kwThen,
   .kwElse, .kwTrue, .kwFalse, .kwAnd, .kwOr, .kwLocal, .kwWhile, .kwDo, .kwFor, .kwFunc,
   .kwNull, .kwEnd, .kwPrint, .kwPrintln, .kwRet]

/-- The kind with a given name. -/
def ofName (name : String) : Kind :=
  (all.find? fun k => k.name == name).getD (.other name)

/-- The reserved words. -/
def keyword? (word : String) : Option Kind :=
  match word with
  | "if" => some .kwIf
  | "else" => some .kwElse
  | "then" => some .kwThen
  | "true" => some .kwTrue
  | "false" => some .kwFalse
  | "and" => some .kwAnd
  | "or" => some .kwOr
  | "local" => some .kwLocal
  | "while" => some .kwWhile
  | "do" => some .kwDo
  | "for" => some .kwFor
  | "func" => some .kwFunc
  | "null" => some .kwNull
  | "end" => some .kwEnd
  | "print" => some .kwPrint
  | "println" => some .kwPrintln
  | "ret" => some .kwRet
  | _ => none

/-- The characters that form a token alone, whatever follows them. -/
def single? (c : Char) : Option Kind :=
  match c with
  | '(' => some .lparen
  | ')' => some .rparen
  | '\x7b' => some .lcurly
  | '\x7d' => some .rcurly
  | '[' => some .lsquare
  | ']' => some .rsquare
  | '.' => some .dot
  | ',' => some .comma
  | '+' => some .plus
  | '*' => some .star
  | '^' => some .caret
  | '/' => some .slash
  | ';' => some .semicolon
  | '?' => some .question
  | '%' => some .percent
  | _ => none

/-- The characters that form one token alone and another with an equals sign after them. -/
def withEquals? (c : Char) : Option (Kind × Kind) :=
  match c with
  | '=' => some (.eq, .eqeq)
  | '~' => some (.tilde, .ne)
  | '<' => some (.lt, .le)
  | '>' => some (.gt, .ge)
  | ':' => some (.colon, .assign)
  | _ => none

end Kind

/-- A word of a program. -/
structure Token where
  kind : Kind
  lexeme : String
  line : Line
  deriving DecidableEq, Repr, Inhabited

/-- A token as it is shown. -/
def Token.shown (t : Token) : String :=
  "(" ++ t.kind.name ++ ", " ++ Text.quoted t.lexeme ++ ", " ++ toString t.line ++ ")"

end ScriptLang
