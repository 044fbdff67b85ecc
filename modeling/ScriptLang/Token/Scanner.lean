import ScriptLang.Fault
import ScriptLang.Text.Digit
import ScriptLang.Text.Letter
import ScriptLang.Token.Basic

/-!
Scanning: from a source text to its tokens.

A scanner stands between two characters of the source. It keeps the characters of the token it is
reading apart from those before it, so that the source is always what was passed, what is pending
and what is left, in this order. The scanner stays usable after an error, at the place where the
error arose.
-/

namespace ScriptLang

/-- Why scanning stops. -/
inductive ScanError where
  | unexpected (c : Char) (line : Line)
  | unterminated (line : Line)
  /-- A character past the end of the source was asked for. -/
  | pastEnd
  deriving DecidableEq, Repr

/-- A place in a source text, and the tokens found before it. -/
structure Scanner where
  /-- The characters before the pending token, last first. -/
  passed : List Char
  /-- The characters of the pending token, last first. -/
  pending : List Char
  /-- The characters not read yet. -/
  rest : List Char
  line : Line
  tokens : Array Token
  deriving Inhabited

/-- A step of a scanner, which may fail and always leaves a scanner behind. -/
abbrev Scan := EStateM ScanError Scanner

namespace Scanner

/-- A scanner at the start of a text. -/
def ofString (source : String) : Scanner :=
  ⟨[], [], source.toList, 1, #[]⟩

/-- Where the pending token starts. -/
def start (s : Scanner) : Nat := s.passed.length

/-- How many characters have been read. -/
def position (s : Scanner) : Nat := s.passed.length + s.pending.length

/-- The whole source text. -/
def source (s : Scanner) : List Char :=
  s.passed.reverse ++ s.pending.reverse ++ s.rest

/-- The next character, or NUL at the end. -/
def peek (s : Scanner) : Char :=
  s.rest.headD '\x00'

/-- The character `n` places after the next one, counted from the end of the source if that is
before its start; NUL at the end of the source, wherever `n` points. -/
def lookahead (s : Scanner) (n : Int) : Option Char :=
  if s.rest.isEmpty then some '\x00'
  else if 0 ≤ n then s.rest[n.toNat]?
  else
    let i := (s.position : Int) + n
    let all := s.source
    if 0 ≤ i then all[i.toNat]?
    else if 0 ≤ i + all.length then all[(i + all.length).toNat]?
    else none

/-- Reads the characters up to the first that fails a test. -/
def skipWhile (p : Char → Bool) (s : Scanner) : Scanner :=
  { s with
    pending := (s.rest.takeWhile p).reverse ++ s.pending
    rest := s.rest.dropWhile p }

/-- Reads one character if there is one. -/
def skip (s : Scanner) : Scanner :=
  match s.rest with
  | [] => s
  | c :: rest => { s with pending := c :: s.pending, rest }

/-- The text of the pending token. -/
def lexeme (s : Scanner) : String :=
  String.ofList s.pending.reverse

/-- Adds the pending text as a token. -/
def push (kind : Kind) (s : Scanner) : Scanner :=
  { s with tokens := s.tokens.push ⟨kind, s.lexeme, s.line⟩ }

/-- Starts a new token at the current place. -/
def mark (s : Scanner) : Scanner :=
  { s with passed := s.pending ++ s.passed, pending := [] }

/-- Reads a character. -/
def advance : Scan Char := fun s =>
  match s.rest with
  | [] => .error .pastEnd s
  | c :: rest => .ok c { s with pending := c :: s.pending, rest }

/-- Reads the next character if it passes a test. -/
def acceptIf (p : Char → Bool) (s : Scanner) : Bool × Scanner :=
  match s.rest with
  | [] => (false, s)
  | c :: rest => if p c then (true, { s with pending := c :: s.pending, rest }) else (false, s)

/-- Reads the next character if it is the expected one. -/
def accept (expected : Char) (s : Scanner) : Bool × Scanner :=
  s.acceptIf (· == expected)

/-- The rest of a number: digits, and a point with digits if a digit follows the point. -/
def number : Scan Unit := fun s =>
  let s := s.skipWhile Text.isDigit
  match s.rest with
  | ['.'] => .error .pastEnd s
  | '.' :: c :: _ =>
    if Text.isDigit c then .ok () ((s.skip.skipWhile Text.isDigit).push .float)
    else .ok () (s.push .integer)
  | _ => .ok () (s.push .integer)

/-- The rest of a string, up to and with the first character that closes it. Line breaks inside it
are not counted. -/
def stringUntil (closes : Char → Bool) : Scan Unit := fun s =>
  let s := s.skipWhile (!closes ·)
  match s.rest with
  | [] => .error (.unterminated s.line) s
  | _ => .ok () (s.skip.push .string)

/-- The rest of a string that ends with a quote. -/
def string (quote : Char) : Scan Unit :=
  stringUntil (· == quote)

/-- A character that can continue a name. -/
def isNameChar (c : Char) : Bool :=
  Text.isLetter c || Text.isNumeral c || c == '_'

/-- A character that can start a name. -/
def isNameStart (c : Char) : Bool :=
  Text.isLetter c || c == '_'

/-- The rest of a name, which may be a reserved word. -/
def word : Scan Unit := fun s =>
  let s := s.skipWhile isNameChar
  .ok () (s.push ((Kind.keyword? s.lexeme).getD .identifier))

/-- What follows a minus sign: a second one starts a comment that ends before the line does. -/
def minus (s : Scanner) : Scanner :=
  match s.accept '-' with
  | (true, s) => s.skipWhile (· != '\n')
  | (false, s) => s.push .minus

/-- Scans one token, blank or comment, of which the character `c` has been read. -/
def item (c : Char) : Scan Unit := fun s =>
  if c == '\n' then .ok () { s with line := s.line + 1 }
  else if c == ' ' || c == '\t' || c == '\r' then .ok () s
  else if c == '-' then .ok () s.minus
  else if c == '"' || c == '\'' then string c s
  else
    match Kind.single? c with
    | some kind => .ok () (s.push kind)
    | none =>
      match Kind.withEquals? c with
      | some (alone, paired) =>
        match s.accept '=' with
        | (true, s) => .ok () (s.push paired)
        | (false, s) => .ok () (s.push alone)
      | none =>
        if Text.isDigit c then number s
        else if isNameStart c then word s
        else .error (.unexpected c s.line) s

/-- The scanner that a step leaves behind. -/
def after (r : EStateM.Result ScanError Scanner Unit) : Scanner :=
  match r with
  | .ok _ s => s
  | .error _ s => s

/-! ### Every step reads forward -/

theorem skipWhile_length_le (p : Char → Bool) (s : Scanner) :
    (s.skipWhile p).rest.length ≤ s.rest.length :=
  (List.dropWhile_suffix p).length_le

theorem skip_length_le (s : Scanner) : s.skip.rest.length ≤ s.rest.length := by
  unfold skip
  split <;> simp_all

theorem accept_length_le (c : Char) (s : Scanner) :
    (s.accept c).2.rest.length ≤ s.rest.length := by
  unfold accept acceptIf
  split
  · exact Nat.le_refl _
  · split <;> simp_all

theorem minus_length_le (s : Scanner) : s.minus.rest.length ≤ s.rest.length := by
  have h := accept_length_le '-' s
  unfold minus
  split <;> rename_i heq <;> rw [heq] at h
  · exact Nat.le_trans (skipWhile_length_le _ _) h
  · exact h

theorem number_length_le (s : Scanner) : (after (number s)).rest.length ≤ s.rest.length := by
  have h := skipWhile_length_le Text.isDigit s
  unfold number
  dsimp only
  split
  · exact h
  · split
    · refine Nat.le_trans (skipWhile_length_le _ _) (Nat.le_trans (skip_length_le _) h)
    · exact h
  · exact h

theorem stringUntil_length_le (closes : Char → Bool) (s : Scanner) :
    (after (stringUntil closes s)).rest.length ≤ s.rest.length := by
  have h := skipWhile_length_le (!closes ·) s
  unfold stringUntil
  dsimp only
  split
  · exact h
  · exact Nat.le_trans (skip_length_le _) h

theorem item_length_le (c : Char) (s : Scanner) :
    (after (item c s)).rest.length ≤ s.rest.length := by
  unfold item
  split
  · exact Nat.le_refl _
  split
  · exact Nat.le_refl _
  split
  · exact minus_length_le s
  split
  · exact stringUntil_length_le _ s
  split
  · exact Nat.le_refl _
  split
  · have h := accept_length_le '=' s
    split <;> rename_i heq <;> rw [heq] at h <;> exact h
  split
  · exact number_length_le s
  split
  · exact skipWhile_length_le _ s
  · exact Nat.le_refl _

/-- Scans to the end of the source. -/
def scanAll (s : Scanner) : EStateM.Result ScanError Scanner Unit :=
  match h : s.rest with
  | [] => .ok () s
  | c :: rest =>
    match hr : item c { s.mark with pending := [c], rest } with
    | .error e s' => .error e s'
    | .ok () s' => scanAll s'
termination_by s.rest.length
decreasing_by
  have hle := item_length_le c { s.mark with pending := [c], rest }
  rw [hr] at hle
  rw [h]
  exact Nat.lt_succ_of_le hle

end Scanner

/-- What scanning a source text yields: the tokens found, and why it stopped early if it did. -/
def tokenize (source : String) : Except ScanError (List Token) :=
  match (Scanner.ofString source).scanAll with
  | .ok _ s => .ok s.tokens.toList
  | .error e _ => .error e

end ScriptLang
