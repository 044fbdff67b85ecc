import ScriptLang.Token.Scanner

/-!
How the tokens of a source text are spelled.

`Spells kind cs`: the characters `cs` are a way to write a token of a kind. Signs and reserved words
stand in tables of their own here; by the tables of the scanner the spellings are the same
(`spells_iff_scanned`). The signs of formulas are written in one way each
(`Token.Spelled.lexeme_eq`).
-/

namespace ScriptLang

/-- The signs of the language, each with the characters that write it. -/
def Kind.symbols : List (Kind × List Char) :=
  [(.lparen, ['(']), (.rparen, [')']), (.lcurly, ['\x7b']), (.rcurly, ['\x7d']),
    (.lsquare, ['[']), (.rsquare, [']']), (.comma, [',']), (.dot, ['.']), (.plus, ['+']),
    (.minus, ['-']), (.star, ['*']), (.slash, ['/']), (.caret, ['^']), (.percent, ['%']),
    (.semicolon, [';']), (.question, ['?']), (.tilde, ['~']), (.ne, ['~', '=']), (.colon, [':']),
    (.assign, [':', '=']), (.eq, ['=']), (.eqeq, ['=', '=']), (.lt, ['<']), (.le, ['<', '=']),
    (.gt, ['>']), (.ge, ['>', '='])]

/-- The reserved words. -/
def Kind.reserved : List (Kind × String) :=
  [(.kwIf, "if"), (.kwThen, "then"), (.kwElse, "else"), (.kwTrue, "true"), (.kwFalse, "false"),
    (.kwAnd, "and"), (.kwOr, "or"), (.kwLocal, "local"), (.kwWhile, "while"), (.kwDo, "do"),
    (.kwFor, "for"), (.kwFunc, "func"), (.kwNull, "null"), (.kwEnd, "end"), (.kwPrint, "print"),
    (.kwPrintln, "println"), (.kwRet, "ret")]

/-- The ways to spell a token of a kind. -/
inductive Spells : Kind → List Char → Prop where
  | symbol {kind cs} : (kind, cs) ∈ Kind.symbols → Spells kind cs
  | string {quote body} : quote = '"' ∨ quote = '\'' → quote ∉ body →
      Spells .string (quote :: body ++ [quote])
  | integer {d ds} : (∀ c ∈ d :: ds, Text.isDigit c = true) → Spells .integer (d :: ds)
  | float {d ds e es} : (∀ c ∈ d :: ds, Text.isDigit c = true) →
      (∀ c ∈ e :: es, Text.isDigit c = true) → Spells .float (d :: ds ++ '.' :: e :: es)
  | reserved {kind word} : (kind, word) ∈ Kind.reserved → Spells kind word.toList
  | name {c cs} : Scanner.isNameStart c = true → (∀ c ∈ cs, Scanner.isNameChar c = true) →
      (∀ kind, (kind, String.ofList (c :: cs)) ∉ Kind.reserved) → Spells .identifier (c :: cs)

/-! ### The tables of the scanner -/

/-- The ways to spell a token of a kind, by the tables of the scanner. -/
inductive Scanned : Kind → List Char → Prop where
  | single {c kind} : Kind.single? c = some kind → Scanned kind [c]
  | minus : Scanned .minus ['-']
  | alone {c kind paired} : Kind.withEquals? c = some (kind, paired) → Scanned kind [c]
  | paired {c alone kind} : Kind.withEquals? c = some (alone, kind) → Scanned kind [c, '=']
  | string {quote body} : quote = '"' ∨ quote = '\'' → quote ∉ body →
      Scanned .string (quote :: body ++ [quote])
  | integer {d ds} : (∀ c ∈ d :: ds, Text.isDigit c = true) → Scanned .integer (d :: ds)
  | float {d ds e es} : (∀ c ∈ d :: ds, Text.isDigit c = true) →
      (∀ c ∈ e :: es, Text.isDigit c = true) → Scanned .float (d :: ds ++ '.' :: e :: es)
  | word {c cs} : Scanner.isNameStart c = true → (∀ c ∈ cs, Scanner.isNameChar c = true) →
      Scanned ((Kind.keyword? (String.ofList (c :: cs))).getD .identifier) (c :: cs)

namespace Kind

theorem scanned_of_mem_symbols : ∀ p ∈ symbols, Scanned p.1 p.2 := by
  simp only [symbols, List.forall_mem_cons]
  exact ⟨.single rfl, .single rfl, .single rfl, .single rfl, .single rfl, .single rfl, .single rfl,
    .single rfl, .single rfl, .minus, .single rfl, .single rfl, .single rfl, .single rfl,
    .single rfl, .single rfl, .alone rfl, .paired rfl, .alone rfl, .paired rfl, .alone rfl,
    .paired rfl, .alone rfl, .paired rfl, .alone rfl, .paired rfl, by simp⟩

theorem mem_symbols_of_single? {c : Char} {k : Kind} (h : single? c = some k) :
    (k, [c]) ∈ symbols := by
  unfold single? at h
  split at h <;> cases h <;> decide

theorem mem_symbols_of_withEquals? {c : Char} {k k' : Kind} (h : withEquals? c = some (k, k')) :
    (k, [c]) ∈ symbols ∧ (k', [c, '=']) ∈ symbols := by
  unfold withEquals? at h
  split at h <;> cases h <;> decide

theorem keyword?_eq_some {word : String} {k : Kind} :
    keyword? word = some k ↔ (k, word) ∈ reserved := by
  constructor
  · intro h
    unfold keyword? at h
    split at h <;> cases h <;> decide
  · have all : ∀ p ∈ reserved, keyword? p.2 = some p.1 := by
      simp only [reserved, List.forall_mem_cons]
      exact ⟨rfl, rfl, rfl, rfl, rfl, rfl, rfl, rfl, rfl, rfl, rfl, rfl, rfl, rfl, rfl, rfl, rfl,
        by simp⟩
    exact all (k, word)

/-- The characters are those of a name. -/
def isName : List Char → Bool
  | [] => false
  | c :: cs => Scanner.isNameStart c && cs.all Scanner.isNameChar

theorem isName_of_mem_reserved {k : Kind} {word : String} (h : (k, word) ∈ reserved) :
    isName word.toList = true := by
  have all : reserved.all (fun p => isName p.2.toList) = true := by decide
  exact List.all_eq_true.mp all _ h

end Kind

theorem Spells.scanned {kind : Kind} {cs : List Char} (h : Spells kind cs) : Scanned kind cs := by
  cases h with
  | symbol mem => exact Kind.scanned_of_mem_symbols _ mem
  | string quote out => exact .string quote out
  | integer digits => exact .integer digits
  | float digits digits' => exact .float digits digits'
  | @reserved kind word mem =>
    have name := Kind.isName_of_mem_reserved mem
    have known := Kind.keyword?_eq_some.mpr mem
    rw [← String.ofList_toList (s := word)] at known
    generalize word.toList = cs at name known
    cases cs with
    | nil => cases name
    | cons c cs =>
      rw [Kind.isName, Bool.and_eq_true, List.all_eq_true] at name
      have spelled := Scanned.word name.1 name.2
      rwa [known] at spelled
  | @name c cs start rest other =>
    have spelled := Scanned.word start rest
    cases known : Kind.keyword? (String.ofList (c :: cs)) with
    | none => rwa [known] at spelled
    | some kind => exact absurd (Kind.keyword?_eq_some.mp known) (other kind)

theorem Scanned.spells {kind : Kind} {cs : List Char} (h : Scanned kind cs) : Spells kind cs := by
  cases h with
  | single found => exact .symbol (Kind.mem_symbols_of_single? found)
  | minus => exact .symbol (by decide)
  | alone found => exact .symbol (Kind.mem_symbols_of_withEquals? found).1
  | paired found => exact .symbol (Kind.mem_symbols_of_withEquals? found).2
  | string quote out => exact .string quote out
  | integer digits => exact .integer digits
  | float digits digits' => exact .float digits digits'
  | @word c cs start rest =>
    cases known : Kind.keyword? (String.ofList (c :: cs)) with
    | none =>
      refine .name start rest fun kind mem => ?_
      rw [Kind.keyword?_eq_some.mpr mem] at known
      cases known
    | some kind =>
      have spelled := Spells.reserved (Kind.keyword?_eq_some.mp known)
      rwa [String.toList_ofList] at spelled

theorem spells_iff_scanned {kind : Kind} {cs : List Char} : Spells kind cs ↔ Scanned kind cs :=
  ⟨Spells.scanned, Scanned.spells⟩

/-- A token is spelled as its kind asks. -/
def Token.Spelled (t : Token) : Prop := Spells t.kind t.lexeme.toList

/-! ### Signs of formulas -/

/-- The signs of formulas, each with the character that writes it. -/
def Kind.sign? : Kind → Option Char
  | .caret => some '^'
  | .star => some '*'
  | .slash => some '/'
  | .plus => some '+'
  | .minus => some '-'
  | .lparen => some '('
  | .rparen => some ')'
  | _ => none

theorem Kind.sign_of_mem_symbols {k : Kind} {cs : List Char} {d : Char}
    (h : (k, cs) ∈ symbols) (sign : k.sign? = some d) : cs = [d] := by
  have all : symbols.all (fun p => p.1.sign?.all fun d => p.2 == [d]) = true := by decide
  simpa [sign] using List.all_eq_true.mp all _ h

theorem Kind.sign?_of_mem_reserved {k : Kind} {word : String} (h : (k, word) ∈ reserved) :
    k.sign? = none := by
  have all : reserved.all (fun p => p.1.sign?.isNone) = true := by decide
  simpa using List.all_eq_true.mp all _ h

/-- A sign of formulas is written by its character. -/
theorem Token.Spelled.lexeme_eq {t : Token} {d : Char} (spelled : t.Spelled)
    (sign : t.kind.sign? = some d) : t.lexeme = String.singleton d := by
  suffices chars : t.lexeme.toList = [d] from String.toList_inj.mp (by simp [chars])
  rw [Token.Spelled] at spelled
  generalize t.kind = k at spelled sign
  generalize t.lexeme.toList = cs at spelled
  cases spelled with
  | symbol mem => exact Kind.sign_of_mem_symbols mem sign
  | reserved mem =>
    rw [Kind.sign?_of_mem_reserved mem] at sign
    cases sign
  | string | integer | float | name => cases sign

/-! ### Numerals -/

/-- A kind of numerals. -/
def Kind.isNumeral : Kind → Bool
  | .integer | .float => true
  | _ => false

theorem Kind.isNumeral_of_mem_symbols {k : Kind} {cs : List Char} (h : (k, cs) ∈ symbols) :
    k.isNumeral = false := by
  have all : symbols.all (fun p => !p.1.isNumeral) = true := by decide
  simpa using List.all_eq_true.mp all _ h

theorem Kind.isNumeral_of_mem_reserved {k : Kind} {word : String} (h : (k, word) ∈ reserved) :
    k.isNumeral = false := by
  have all : reserved.all (fun p => !p.1.isNumeral) = true := by decide
  simpa using List.all_eq_true.mp all _ h

/-- A whole number is digits; a real number has a point between digits. -/
theorem Token.Spelled.numeral_cases {t : Token} (spelled : t.Spelled)
    (numeral : t.kind = .integer ∨ t.kind = .float) :
    ∃ d ds, (∀ c ∈ d :: ds, Text.isDigit c = true) ∧
      (t.kind = .integer ∧ t.lexeme.toList = d :: ds ∨
        t.kind = .float ∧ ∃ es, t.lexeme.toList = d :: ds ++ '.' :: es ∧
          ∀ c ∈ es, Text.isDigit c = true) := by
  rw [Token.Spelled] at spelled
  generalize t.kind = k at spelled numeral
  generalize t.lexeme.toList = cs at spelled
  have isNumeral : k.isNumeral = true := by
    rcases numeral with rfl | rfl <;> rfl
  cases spelled with
  | integer digits => exact ⟨_, _, digits, .inl ⟨rfl, rfl⟩⟩
  | float digits digits' => exact ⟨_, _, digits, .inr ⟨rfl, _, rfl, digits'⟩⟩
  | symbol mem => cases isNumeral.symm.trans (Kind.isNumeral_of_mem_symbols mem)
  | reserved mem => cases isNumeral.symm.trans (Kind.isNumeral_of_mem_reserved mem)
  | string | name => cases isNumeral

/-- A numeral starts with a digit, and digits and a point are all there is. -/
theorem Token.Spelled.numeral_chars {t : Token} (spelled : t.Spelled)
    (numeral : t.kind = .integer ∨ t.kind = .float) :
    ∃ d ds, t.lexeme.toList = d :: ds ∧ Text.isDigit d = true ∧
      ∀ c ∈ d :: ds, Text.isDigit c = true ∨ c = '.' := by
  obtain ⟨d, ds, digits, ⟨-, chars⟩ | ⟨-, es, chars, digits'⟩⟩ := spelled.numeral_cases numeral
  · exact ⟨d, ds, chars, digits d List.mem_cons_self, fun c mem => .inl (digits c mem)⟩
  · refine ⟨d, ds ++ '.' :: es, chars, digits d List.mem_cons_self, ?_⟩
    intro c mem
    rcases List.mem_append.mp (show c ∈ (d :: ds) ++ '.' :: es from mem) with mem | mem
    · exact .inl (digits c mem)
    · rcases List.mem_cons.mp mem with rfl | mem
      · exact .inr rfl
      · exact .inl (digits' c mem)

end ScriptLang
