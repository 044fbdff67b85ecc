import Mathlib
import ScriptLang.Proofs.Number.Reading
import ScriptLang.Proofs.Parse.Failures
import ScriptLang.Proofs.Text.Words
import ScriptLang.Proofs.Token.Cuts
import ScriptLang.Workload

/-!
What becomes of a source text.

A source text is read as a program, or it is refused with a report about one of its lines, or one of
five things is wrong with it that are not reported (`Escapes`): the text ends with a point after a
number, it has no tokens, a numeral has digits that are not decimal or too many of them, an
expression that is no call stands where a statement starts, or the counter of a loop is not a name.

Reading is recursive, and the depth of recursion is not modelled here: the statements are about
texts that are read within the depth that is there.
-/

namespace ScriptLang

/-! ### Texts that end too early -/

/-- Every segment is what it should be in front of those after it and the text `rest`. -/
def Segment.FitBefore (rest : List Char) : List Segment → Prop
  | [] => True
  | g :: gs => g.Fits (gs.flatMap Segment.text ++ rest) ∧ FitBefore rest gs

namespace Scanner

variable {s s' : Scanner} {c : Char}

/-- Only a number looks past the end of the text. -/
theorem item_pastEnd (h : item c s = .error .pastEnd s') :
    Text.isDigit c = true ∧ ∃ ds, (∀ d ∈ ds, Text.isDigit d = true) ∧ s.rest = ds ++ ['.'] := by
  rcases item_error h with ⟨other, -⟩ | ⟨other, -⟩ | ⟨-, digit, shape⟩
  · cases other
  · cases other
  · exact ⟨digit, shape⟩

/-- A text in which a character is missing at the end ends with a number and a point. -/
theorem scanAll_pastEnd (h : s.scanAll = .error .pastEnd s') :
    ∃ (gs : List Segment) (d : Char) (ds : List Char), (∀ c ∈ d :: ds, Text.isDigit c = true) ∧
      s.rest = gs.flatMap Segment.text ++ (d :: ds ++ ['.']) ∧
      Segment.FitBefore (d :: ds ++ ['.']) gs := by
  fun_induction scanAll s with
  | case1 => cases h
  | case2 s c rest next e s₁ failed =>
    cases h
    obtain ⟨digit, ds, digits, tail⟩ := item_pastEnd failed
    have tail : rest = ds ++ ['.'] := tail
    exact ⟨[], c, ds, List.forall_mem_cons.mpr ⟨digit, digits⟩, by simp [next, tail], trivial⟩
  | case3 s c rest next s₁ read ih =>
    obtain ⟨g, text, -, fits⟩ := reads_item rfl read
    obtain ⟨gs, d, ds, digits, texts, fit⟩ := ih h
    refine ⟨g :: gs, d, ds, digits, ?_, ?_, fit⟩
    · rw [List.flatMap_cons, List.append_assoc, ← texts, ← text, next]
      rfl
    · rw [← texts]
      exact fits

end Scanner

/-! ### Numerals that cannot be read -/

/-- A numeral with a digit that is not decimal, or a whole number with too many digits. -/
def Token.Unreadable (t : Token) : Prop :=
  t.kind = .integer ∧ ((∃ c ∈ t.lexeme.toList, ¬ Number.IsDecimal c) ∨
      Number.maxDigits < t.lexeme.toList.length) ∨
    t.kind = .float ∧ ∃ c ∈ t.lexeme.toList, c ≠ '.' ∧ ¬ Number.IsDecimal c

theorem Token.Spelled.unreadable_whole {t : Token} {cause : Number.NumeralError}
    (spelled : t.Spelled) (kind : t.kind = .integer)
    (unread : Number.readWhole t.lexeme = .error cause) : t.Unreadable := by
  refine .inl ⟨kind, ?_⟩
  by_cases few : t.lexeme.toList.length ≤ Number.maxDigits
  · by_cases all : ∀ c ∈ t.lexeme.toList, Number.IsDecimal c
    · obtain ⟨n, read⟩ := Number.readWhole_of_decimal (Spells.ne_nil spelled) all few
      rw [read] at unread
      cases unread
    · exact .inl (by simpa only [Classical.not_forall, exists_prop] using all)
  · exact .inr (Nat.lt_of_not_le few)

theorem Token.Spelled.unreadable_real {t : Token} {cause : Number.NumeralError}
    (spelled : t.Spelled) (kind : t.kind = .float)
    (unread : Number.readReal t.lexeme = .error cause) : t.Unreadable := by
  refine .inr ⟨kind, ?_⟩
  obtain ⟨d, ds, digits, ⟨other, -⟩ | ⟨-, es, chars, digits'⟩⟩ := spelled.numeral_cases (.inr kind)
  · rw [kind] at other
    cases other
  by_cases all : ∀ c ∈ t.lexeme.toList, c ≠ '.' → Number.IsDecimal c
  · have decimal {c : Char} (mem : c ∈ t.lexeme.toList) (digit : Text.isDigit c = true) :
        Number.IsDecimal c := by
      refine all c mem ?_
      rintro rfl
      cases digit
    obtain ⟨x, read⟩ := Number.readReal_of_decimal chars (List.cons_ne_nil d ds)
      (fun c mem => decimal (by rw [chars]; exact List.mem_append_left _ mem) (digits c mem))
      (fun c mem => decimal (by rw [chars]; exact List.mem_append_right _ (.tail _ mem))
        (digits' c mem))
    rw [read] at unread
    cases unread
  · simpa only [Classical.not_forall, exists_prop] using all

/-! ### Source texts -/

open Parse

/-- A source text makes reading fail without a report. -/
inductive Escapes (source : String) : Failure → Prop where
  /-- The text ends with a number and a point. -/
  | point {gs : List Segment} {d ds} : (∀ c ∈ d :: ds, Text.isDigit c = true) →
      source.toList = gs.flatMap Segment.text ++ (d :: ds ++ ['.']) →
      Segment.FitBefore (d :: ds ++ ['.']) gs → Escapes source (.fault (.index .text))
  /-- The text has no tokens. -/
  | noTokens : tokenize source = .ok [] → Escapes source (.fault (.index .list))
  /-- A numeral cannot be read. -/
  | numeral {before after : List Token} {t cause} : tokenize source = .ok (before ++ t :: after) →
      t.kind = .integer ∧ Number.readWhole t.lexeme = .error cause ∨
        t.kind = .float ∧ Number.readReal t.lexeme = .error cause →
      t.Unreadable → Escapes source (.fault (.value (.numeral cause)))
  /-- An expression that is no call where a statement starts, with no assignment after it. -/
  | notCall {before ts after : List Token} {e} : tokenize source = .ok (before ++ ts ++ after) →
      Opens before → Derives Eq (.level loosest e) ts → (∀ f args line, e ≠ .call f args line) →
      (∀ t ∈ after.head?, t.kind ≠ .assign) → Escapes source (.fault (.assertion e.outline.shown))
  /-- A loop whose counter is not a name. -/
  | notName {before ts after : List Token} {word sign e} :
      tokenize source = .ok (before ++ word :: (ts ++ sign :: after)) → Opens before →
      word.kind = .kwFor → Derives Eq (.primary e) ts → sign.kind = .assign → e.isName = false →
      Escapes source (.fault (.assertion e.outline.shown))

/-- The tokens are those behind and those ahead of every place that reading comes to. -/
theorem eq_of_spans {tokens ts : List Token} {c : Cursor}
    (spans : (Cursor.ofList tokens).Spans ts c) : tokens = c.behind.reverse ++ c.ahead := by
  have ahead : tokens = ts ++ c.ahead := spans.ahead
  rw [spans.behind, ahead]
  simp [Cursor.ofList]

theorem Parse.Unreported.escapes {source : String} {tokens ts : List Token} {e : ParseError}
    {c : Cursor} (h : Unreported e c) (scanned : tokenize source = .ok tokens)
    (spans : (Cursor.ofList tokens).Spans ts c) : Escapes source e.failure := by
  have whole := eq_of_spans spans
  cases h with
  | noToken =>
    have none : tokens = [] := whole
    exact .noTokens (none ▸ scanned)
  | @numeral t behind ahead cause unread =>
    have parts : tokens = behind.reverse ++ t :: ahead := by simpa using whole
    have spelled := tokens_spelled scanned t (by simp [parts])
    refine .numeral (parts ▸ scanned) unread ?_
    rcases unread with ⟨kind, unread⟩ | ⟨kind, unread⟩
    · exact spelled.unreadable_whole kind unread
    · exact spelled.unreadable_real kind unread
  | @notCall c₀ _ e ts opens spans derived other before =>
    have parts : tokens = c₀.behind.reverse ++ ts ++ c.ahead := by
      rw [whole, spans.behind]
      simp
    refine .notCall (parts ▸ scanned) opens derived other fun t head assigns => ?_
    exact before t head (by simp [assigns])
  | @notName c₀ _ word sign e ts us opens spans kind derived kind' other =>
    have parts : tokens = c₀.behind.reverse ++ word :: (ts ++ sign :: (us ++ c.ahead)) := by
      rw [whole, spans.behind]
      simp
    exact .notName (parts ▸ scanned) opens kind derived kind' other

theorem printed_atLine (line : Line) (text : String) :
    (Failure.report (.atLine line text)).printed =
      Colour.red.code ++ "[Line " ++ toString line ++ "]: " ++ text ++ " " ++
        Colour.normal.code ++ "\n" := by
  simp [Failure.printed, Report.printed, Report.atLine, Place.shown, String.append_assoc]

/-- Every source text is read as a program, is refused with a report about a line and the status 1,
or is one of the texts whose fault is not reported. -/
theorem source_read_or_refused (source : String) :
    (∃ b, Workload.parsed source = .ok b) ∨
      (∃ line text, Workload.parsed source = .error (.report (.atLine line text)) ∧
        (Failure.report (.atLine line text)).message = "1" ∧
        (Failure.report (.atLine line text)).printed =
          Colour.red.code ++ "[Line " ++ toString line ++ "]: " ++ text ++ " " ++
            Colour.normal.code ++ "\n") ∨
      ∃ f, Workload.parsed source = .error f ∧ Escapes source f := by
  cases scanned : tokenize source with
  | error e =>
    have failed : Workload.parsed source = .error e.failure := by
      rw [Workload.parsed, scanned]
      rfl
    cases e with
    | unexpected | unterminated => exact .inr (.inl ⟨_, _, failed, rfl, printed_atLine _ _⟩)
    | pastEnd =>
      refine .inr (.inr ⟨_, failed, ?_⟩)
      unfold tokenize at scanned
      split at scanned
      · cases scanned
      · cases scanned
        obtain ⟨gs, d, ds, digits, text, fit⟩ := Scanner.scanAll_pastEnd ‹_›
        exact .point digits text fit
  | ok tokens =>
    have accounted := program_accounted tokens
    cases read : Parse.program tokens with
    | ok b c shorter =>
      left
      refine ⟨b, ?_⟩
      rw [Workload.parsed, scanned]
      change (Parse.program tokens).toExcept.mapError _ = _
      rw [read]
      rfl
    | error e c =>
      have failed : Workload.parsed source = .error e.failure := by
        rw [Workload.parsed, scanned]
        change (Parse.program tokens).toExcept.mapError _ = _
        rw [read]
        rfl
      rw [read] at accounted
      obtain ⟨⟨ts, spans⟩, ⟨line, text, reported⟩ | unreported⟩ := accounted
      · rw [reported] at failed
        exact .inr (.inl ⟨line, text, failed, rfl, printed_atLine _ _⟩)
      · exact .inr (.inr ⟨_, failed, unreported.escapes scanned spans⟩)

/-- Four texts, each with a fault that escapes without a report. -/
theorem faults_escape :
    Workload.parsed "println 1." = .error (.fault (.index .text)) ∧
      Workload.parsed "" = .error (.fault (.index .list)) ∧
      Workload.parsed "x" = .error (.fault (.assertion (Expr.name "x" 1).outline.shown)) ∧
      Workload.parsed "for true := 1, 2 do end" =
        .error (.fault (.assertion (Expr.bool true 1).outline.shown)) := by
  refine ⟨?_, ?_, ?_, ?_⟩ <;> cbv

end ScriptLang
