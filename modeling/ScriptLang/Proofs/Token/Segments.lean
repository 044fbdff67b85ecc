import Mathlib
import ScriptLang.Proofs.Text.Classes
import ScriptLang.Proofs.Token.Spelling

/-!
Source texts as tokens, blanks and comments in a row.

A source text that can be scanned is cut into segments without a gap: its tokens in order, and
between them blanks and comments (`tokenize_segments`). No segment but a blank could be longer: no
longer beginning of what is left at its place is a token or a comment.
-/

namespace ScriptLang

/-- A piece of a source text. -/
inductive Segment where
  | token (t : Token)
  | blank (c : Char)
  /-- Two dashes and what follows them. -/
  | comment (body : List Char)

/-- The characters form a token or a comment. -/
def Lexical (cs : List Char) : Prop :=
  (∃ kind, Spells kind cs) ∨ ∃ body, cs = '-' :: '-' :: body ∧ '\n' ∉ body

/-- At the beginning of the text `cs ++ rest` nothing longer than `cs` is a token or a comment. -/
def Longest (cs rest : List Char) : Prop :=
  ∀ more, more ≠ [] → more <+: rest → ¬Lexical (cs ++ more)

namespace Kind

/-- The kinds of reserved words. -/
def keywords : List Kind :=
  [.kwIf, .kwElse, .kwThen, .kwTrue, .kwFalse, .kwAnd, .kwOr, .kwLocal, .kwWhile, .kwDo, .kwFor,
    .kwFunc, .kwNull, .kwEnd, .kwPrint, .kwPrintln, .kwRet]

end Kind

namespace Segment

/-- The characters of a segment. -/
def text : Segment → List Char
  | .token t => t.lexeme.toList
  | .blank c => [c]
  | .comment body => '-' :: '-' :: body

/-- The token that a segment is. -/
def token? : Segment → Option Token
  | .token t => some t
  | .blank _ | .comment _ => none

/-- A segment is what it should be in front of the text `rest`. A token is of the kind of a reserved
word exactly if its lexeme is that word. -/
def Fits (rest : List Char) : Segment → Prop
  | .token t => t.lexeme ≠ "" ∧ t.Spelled ∧
      (∀ k ∈ Kind.keywords, t.kind = k ↔ Kind.keyword? t.lexeme = some k) ∧
      Longest t.lexeme.toList rest
  | .blank c => c ∈ [' ', '\t', '\r', '\n']
  | .comment body => '\n' ∉ body ∧ Longest ('-' :: '-' :: body) rest

/-- Every segment is what it should be in front of those after it. -/
def AllFit : List Segment → Prop
  | [] => True
  | g :: gs => g.Fits (gs.flatMap text) ∧ AllFit gs

end Segment

/-! ### Reserved words -/

namespace Kind

theorem not_mem_keywords_of_single? {c : Char} {k : Kind} (h : single? c = some k) :
    k ∉ keywords := by
  unfold single? at h
  split at h <;> cases h <;> decide

theorem not_mem_keywords_of_withEquals? {c : Char} {k k' : Kind}
    (h : withEquals? c = some (k, k')) : k ∉ keywords ∧ k' ∉ keywords := by
  unfold withEquals? at h
  split at h <;> cases h <;> decide

/-- A reserved word starts like a name. -/
theorem isNameStart_of_keyword? {word : String} {k : Kind} (h : keyword? word = some k) :
    ∃ c cs, word.toList = c :: cs ∧ Scanner.isNameStart c = true := by
  unfold keyword? at h
  split at h <;> cases h <;> exact ⟨_, _, rfl, by decide⟩

end Kind

/-! ### What a spelling starts with -/

open Text (marks marks_plain isNameStart_of_isDigit)

variable {c d : Char} {cs ds body rest : List Char} {k k' kind : Kind}

theorem mem_marks_of_single? (h : Kind.single? c = some k) : c ∈ marks := by
  unfold Kind.single? at h
  split at h <;> first | decide | cases h

theorem mem_marks_of_withEquals? {p : Kind × Kind} (h : Kind.withEquals? c = some p) :
    c ∈ marks := by
  unfold Kind.withEquals? at h
  split at h <;> first | decide | cases h

theorem mem_marks_of_quote (h : c = '"' ∨ c = '\'') : c ∈ marks := by
  rcases h with rfl | rfl <;> decide

/-- A spelling that does not start like a name spells no reserved word. -/
theorem Spells.not_keyword (h : Spells kind (c :: cs)) (start : Scanner.isNameStart c = false) :
    kind ∉ Kind.keywords := by
  cases h.scanned with
  | single found => exact Kind.not_mem_keywords_of_single? found
  | alone found => exact (Kind.not_mem_keywords_of_withEquals? found).1
  | paired found => exact (Kind.not_mem_keywords_of_withEquals? found).2
  | minus | string | integer | float => decide
  | word name =>
    rw [start] at name
    cases name

/-- A spelling that starts like a name spells a name or a reserved word. -/
theorem Spells.of_isNameStart (h : Spells kind (c :: cs)) (start : Scanner.isNameStart c = true) :
    kind = (Kind.keyword? (String.ofList (c :: cs))).getD .identifier := by
  have sign : c ∉ marks := by
    intro mem
    rw [(marks_plain c mem).2] at start
    cases start
  have letter : Text.isDigit c ≠ true := by
    intro digit
    rw [isNameStart_of_isDigit digit] at start
    cases start
  cases h.scanned with
  | single found => exact absurd (mem_marks_of_single? found) sign
  | minus => exact absurd (by decide) sign
  | alone found | paired found => exact absurd (mem_marks_of_withEquals? found) sign
  | string quote => exact absurd (mem_marks_of_quote quote) sign
  | integer digits | float digits => exact absurd (digits c List.mem_cons_self) letter
  | word => rfl

theorem Spells.ne_nil (h : Spells kind cs) : cs ≠ [] := by
  cases h.scanned <;> simp

theorem Token.Spelled.lexeme_ne {t : Token} (spelled : t.Spelled) : t.lexeme ≠ "" := by
  intro empty
  rw [Token.Spelled, empty] at spelled
  exact spelled.ne_nil rfl

theorem Token.Spelled.keyword_iff {t : Token} (spelled : t.Spelled) (mem : k ∈ Kind.keywords) :
    t.kind = k ↔ Kind.keyword? t.lexeme = some k := by
  obtain ⟨c, cs, chars⟩ := List.exists_cons_of_ne_nil (Spells.ne_nil spelled)
  have lexeme : t.lexeme = String.ofList (c :: cs) := String.toList_inj.mp (by simp [chars])
  rw [Token.Spelled, chars] at spelled
  by_cases start : Scanner.isNameStart c = true
  · rw [spelled.of_isNameStart start, lexeme]
    cases found : Kind.keyword? (String.ofList (c :: cs)) with
    | none =>
      have other : k ≠ .identifier := by
        rintro rfl
        exact absurd mem (by decide)
      simp [Ne.symm other]
    | some k' => simp
  · rw [Bool.not_eq_true] at start
    constructor
    · intro same
      exact absurd (same ▸ mem) (spelled.not_keyword start)
    · intro found
      obtain ⟨d, ds, chars', start'⟩ := Kind.isNameStart_of_keyword? found
      rw [chars] at chars'
      cases chars'
      rw [start] at start'
      cases start'

/-- Digits, or digits with a point among them. -/
def Numeral (cs : List Char) : Prop :=
  (∀ c ∈ cs, Text.isDigit c = true) ∨ ∃ ds e es, cs = ds ++ '.' :: e :: es ∧
    (∀ c ∈ ds, Text.isDigit c = true) ∧ ∀ c ∈ e :: es, Text.isDigit c = true

/-- What a token or a comment of more than one character can be. -/
theorem Lexical.cons_cases (h : Lexical (c :: d :: cs)) :
    ((∃ p, Kind.withEquals? c = some p) ∧ d = '=' ∧ cs = []) ∨
      ((c = '"' ∨ c = '\'') ∧ ∃ body, c ∉ body ∧ d :: cs = body ++ [c]) ∨
      (Text.isDigit c = true ∧ Numeral (c :: d :: cs)) ∨
      (Scanner.isNameStart c = true ∧ ∀ e ∈ d :: cs, Scanner.isNameChar e = true) ∨
      (c = '-' ∧ d = '-' ∧ '\n' ∉ cs) := by
  rcases h with ⟨kind, spells⟩ | ⟨body, eq, plain⟩
  · generalize all : c :: d :: cs = text at spells
    cases spells.scanned with
    | single | minus | alone => cases all
    | paired found =>
      cases all
      exact .inl ⟨⟨_, found⟩, rfl, rfl⟩
    | @string quote body isQuote absent =>
      obtain ⟨rfl, tail⟩ := List.cons.inj all
      exact .inr (.inl ⟨isQuote, body, absent, tail⟩)
    | integer digits =>
      cases all
      exact .inr (.inr (.inl ⟨digits c List.mem_cons_self, .inl digits⟩))
    | float digits digits' =>
      have digit := digits _ List.mem_cons_self
      rw [← (List.cons.inj all).1] at digit
      exact .inr (.inr (.inl ⟨digit, .inr ⟨_, _, _, rfl, digits, digits'⟩⟩))
    | word start chars =>
      cases all
      exact .inr (.inr (.inr (.inl ⟨start, chars⟩)))
  · cases eq
    exact .inr (.inr (.inr (.inr ⟨rfl, rfl, plain⟩)))

/-! ### Longest matches -/

/-- Nothing is longer if what follows cannot continue. -/
theorem Longest.of_next (h : ∀ d ds, d :: ds <+: rest → ¬Lexical (cs ++ d :: ds)) :
    Longest cs rest := by
  intro more nonempty pre
  obtain ⟨d, ds, rfl⟩ := List.exists_cons_of_ne_nil nonempty
  exact h d ds pre

/-- A mark is continued only by an equals sign, a quoted text or a second dash. -/
theorem Lexical.of_mark (mark : c ∈ marks) (h : Lexical (c :: d :: cs)) :
    ((∃ p, Kind.withEquals? c = some p) ∧ d = '=' ∧ cs = []) ∨
      ((c = '"' ∨ c = '\'') ∧ ∃ body, c ∉ body ∧ d :: cs = body ++ [c]) ∨
      (c = '-' ∧ d = '-' ∧ '\n' ∉ cs) := by
  obtain ⟨plain, plain'⟩ := marks_plain c mark
  rcases h.cons_cases with paired | quoted | ⟨digit, -⟩ | ⟨start, -⟩ | comment
  · exact .inl paired
  · exact .inr (.inl quoted)
  · rw [plain] at digit
    cases digit
  · rw [plain'] at start
    cases start
  · exact .inr (.inr comment)

theorem longest_single (found : Kind.single? c = some k) : Longest [c] rest := by
  refine .of_next fun d ds _ lexical => ?_
  have alone : Kind.withEquals? c = none ∧ c ≠ '"' ∧ c ≠ '\'' ∧ c ≠ '-' := by
    unfold Kind.single? at found
    split at found <;> first | decide | cases found
  rcases lexical.of_mark (mem_marks_of_single? found) with ⟨⟨p, paired⟩, -⟩ | ⟨quote, -⟩ | ⟨dash, -⟩
  · rw [alone.1] at paired
    cases paired
  · exact quote.elim alone.2.1 alone.2.2.1
  · exact alone.2.2.2 dash

theorem withEquals?_plain {p : Kind × Kind} (found : Kind.withEquals? c = some p) :
    c ≠ '"' ∧ c ≠ '\'' ∧ c ≠ '-' := by
  unfold Kind.withEquals? at found
  split at found <;> first | decide | cases found

theorem longest_alone {p : Kind × Kind} (found : Kind.withEquals? c = some p)
    (next : rest.head? ≠ some '=') : Longest [c] rest := by
  refine .of_next fun d ds pre lexical => ?_
  obtain ⟨plain, plain', dash⟩ := withEquals?_plain found
  rcases lexical.of_mark (mem_marks_of_withEquals? found) with ⟨-, rfl, -⟩ | ⟨quote, -⟩ | ⟨same, -⟩
  · obtain ⟨more, rfl⟩ := pre
    exact next rfl
  · exact quote.elim plain plain'
  · exact dash same

theorem longest_paired {p : Kind × Kind} (found : Kind.withEquals? c = some p) :
    Longest [c, '='] rest := by
  refine .of_next fun d ds _ lexical => ?_
  obtain ⟨plain, plain', dash⟩ := withEquals?_plain found
  rcases lexical.of_mark (mem_marks_of_withEquals? found) with ⟨-, -, none⟩ | ⟨quote, -⟩ | ⟨same, -⟩
  · cases none
  · exact quote.elim plain plain'
  · exact dash same

theorem longest_minus (next : rest.head? ≠ some '-') : Longest ['-'] rest := by
  refine .of_next fun d ds pre lexical => ?_
  rcases lexical.of_mark (by decide) with ⟨⟨p, paired⟩, -⟩ | ⟨quote, -⟩ | ⟨-, rfl, -⟩
  · cases paired
  · exact quote.elim (by decide) (by decide)
  · obtain ⟨more, rfl⟩ := pre
    exact next rfl

theorem longest_comment (next : ∀ d, rest.head? = some d → d = '\n') :
    Longest ('-' :: '-' :: body) rest := by
  refine .of_next fun d ds pre lexical => ?_
  rcases lexical.of_mark (by decide) with ⟨-, same, -⟩ | ⟨quote, -⟩ | ⟨-, -, plain⟩
  · cases same
  · exact quote.elim (by decide) (by decide)
  · obtain ⟨more, rfl⟩ := pre
    apply plain
    rw [← next d rfl]
    simp

theorem longest_string (quote : c = '"' ∨ c = '\'') :
    Longest (c :: body ++ [c]) rest := by
  refine .of_next fun d ds _ lexical => ?_
  have split : c :: body ++ [c] ++ d :: ds = c :: (body ++ c :: d :: ds) := by simp
  obtain ⟨e, es, eq⟩ : ∃ e es, body ++ c :: d :: ds = e :: es :=
    List.exists_cons_of_ne_nil (by simp)
  rw [split, eq] at lexical
  rcases lexical.of_mark (mem_marks_of_quote quote) with
    ⟨⟨p, paired⟩, -⟩ | ⟨-, body', absent, eq'⟩ | ⟨dash, -⟩
  · have plain := withEquals?_plain paired
    exact quote.elim plain.1 plain.2.1
  · -- The closing quote would lie inside the longer string.
    have inside := congrArg List.dropLast (eq.trans eq')
    rw [List.dropLast_concat, List.dropLast_append_of_ne_nil (by simp)] at inside
    apply absent
    rw [← inside]
    simp
  · subst dash
    simp at quote

theorem longest_word (start : Scanner.isNameStart c = true)
    (next : ∀ d, rest.head? = some d → Scanner.isNameChar d = false) : Longest (c :: cs) rest := by
  refine .of_next fun d ds pre lexical => ?_
  obtain ⟨e, es, eq⟩ : ∃ e es, cs ++ d :: ds = e :: es := List.exists_cons_of_ne_nil (by simp)
  have stop : Scanner.isNameChar d = false := by
    obtain ⟨more, rfl⟩ := pre
    exact next d rfl
  rw [List.cons_append, eq] at lexical
  rcases lexical.cons_cases with ⟨⟨p, paired⟩, -⟩ | ⟨quote, -⟩ | ⟨digit, -⟩ | ⟨-, chars⟩ | ⟨rfl, -⟩
  · rw [(marks_plain c (mem_marks_of_withEquals? paired)).2] at start
    cases start
  · rw [(marks_plain c (mem_marks_of_quote quote)).2] at start
    cases start
  · rw [isNameStart_of_isDigit digit] at start
    cases start
  · rw [← eq] at chars
    have char := chars d (by simp)
    rw [stop] at char
    cases char
  · cases start

/-- A text is cut in one way only before the first character that fails a test. -/
theorem cut_unique {p : Char → Bool} {xs ys : List Char} (pass : ∀ e ∈ xs, p e = true)
    (pass' : ∀ e ∈ ys, p e = true) (fail : p c = false) (fail' : p d = false)
    (eq : xs ++ c :: cs = ys ++ d :: ds) : xs = ys ∧ c = d ∧ cs = ds := by
  have whole := congrArg (List.takeWhile p) eq
  rw [List.takeWhile_append_of_pos pass, List.takeWhile_append_of_pos pass',
    List.takeWhile_cons_of_neg (by simp [fail]), List.takeWhile_cons_of_neg (by simp [fail']),
    List.append_nil, List.append_nil] at whole
  subst whole
  exact ⟨rfl, List.cons.inj (List.append_cancel_left eq)⟩

/-- A digit is continued only to a numeral. -/
theorem Lexical.of_digit (digit : Text.isDigit c = true) (h : Lexical (c :: d :: cs)) :
    Numeral (c :: d :: cs) := by
  rcases h.cons_cases with ⟨⟨p, paired⟩, -⟩ | ⟨quote, -⟩ | ⟨-, numeral⟩ | ⟨start, -⟩ | ⟨rfl, -⟩
  · rw [(marks_plain c (mem_marks_of_withEquals? paired)).1] at digit
    cases digit
  · rw [(marks_plain c (mem_marks_of_quote quote)).1] at digit
    cases digit
  · exact numeral
  · rw [isNameStart_of_isDigit digit] at start
    cases start
  · cases digit

theorem longest_integer (digits : ∀ e ∈ c :: cs, Text.isDigit e = true)
    (next : ∀ d, rest.head? = some d → Text.isDigit d = false)
    (point : ∀ e es, rest = '.' :: e :: es → Text.isDigit e = false) :
    Longest (c :: cs) rest := by
  refine .of_next fun d ds pre lexical => ?_
  obtain ⟨more, rfl⟩ := pre
  have stop := next d rfl
  obtain ⟨e, es, eq⟩ : ∃ e es, cs ++ d :: ds = e :: es := List.exists_cons_of_ne_nil (by simp)
  rw [List.cons_append, eq] at lexical
  have numeral := lexical.of_digit (digits c List.mem_cons_self)
  rw [← eq] at numeral
  rcases numeral with all | ⟨front, e, es, eq, digits', tail⟩
  · have digit := all d (by simp)
    rw [stop] at digit
    cases digit
  · obtain ⟨-, rfl, rfl⟩ := cut_unique digits digits' stop (by decide) eq
    have digit := tail e List.mem_cons_self
    rw [point e (es ++ more) rfl] at digit
    cases digit

theorem longest_float (digits : ∀ e ∈ c :: cs, Text.isDigit e = true)
    (next : ∀ d, rest.head? = some d → Text.isDigit d = false) :
    Longest (c :: cs ++ '.' :: ds) rest := by
  refine .of_next fun d more pre lexical => ?_
  have stop : Text.isDigit d = false := by
    obtain ⟨_, rfl⟩ := pre
    exact next d rfl
  obtain ⟨e, es, eq⟩ : ∃ e es, cs ++ '.' :: (ds ++ d :: more) = e :: es :=
    List.exists_cons_of_ne_nil (by simp)
  rw [List.append_assoc, List.cons_append, List.cons_append, eq] at lexical
  have numeral := lexical.of_digit (digits c List.mem_cons_self)
  rw [← eq] at numeral
  rcases numeral with all | ⟨front, e, es, eq, digits', tail⟩
  · exact absurd (all '.' (by simp)) (by decide)
  · obtain ⟨-, -, eq⟩ := cut_unique digits digits' (by decide) (by decide) eq
    have digit := tail d (by simp [← eq])
    rw [stop] at digit
    cases digit

/-! ### Scanning -/

namespace Scanner

variable {s s' : Scanner} {g : Segment}

theorem toList_lexeme (s : Scanner) : s.lexeme.toList = s.pending.reverse := by
  simp [lexeme]

theorem pending_skipWhile (p : Char → Bool) (h : s.pending = [c]) :
    (s.skipWhile p).pending.reverse = c :: s.rest.takeWhile p := by
  simp [skipWhile, h]

theorem skip_of_rest (h : s.rest = c :: rest) :
    s.skip = { s with pending := c :: s.pending, rest } := by
  rw [skip, h]

theorem of_mem_takeWhile {p : Char → Bool} : ∀ d ∈ cs.takeWhile p, p d = true :=
  List.all_eq_true.mp List.all_takeWhile

/-- The first character and those skipped after it pass a test. -/
theorem of_mem_cons_takeWhile {p : Char → Bool} (first : p c = true) :
    ∀ d ∈ c :: cs.takeWhile p, p d = true :=
  List.forall_mem_cons.mpr ⟨first, of_mem_takeWhile⟩

theorem head?_dropWhile {p : Char → Bool} (h : (cs.dropWhile p).head? = some d) : p d = false := by
  have found := List.head?_dropWhile_not p cs
  rw [h] at found
  simpa using found

/-- The characters from the start of the pending token on. -/
def ahead (s : Scanner) : List Char := s.pending.reverse ++ s.rest

theorem ahead_skipWhile (p : Char → Bool) (s : Scanner) : (s.skipWhile p).ahead = s.ahead := by
  simp [ahead, skipWhile]

theorem ahead_skip (s : Scanner) : s.skip.ahead = s.ahead := by
  unfold skip
  split
  · rfl
  · rename_i rest
    simp [ahead, rest]

/-- From `s`, where a segment begins with what is pending, to `s'` the segment `g` is read. -/
structure Reads (s s' : Scanner) (g : Segment) : Prop where
  text : s.ahead = g.text ++ s'.rest
  tokens : s'.tokens.toList = s.tokens.toList ++ g.token?.toList
  fits : g.Fits s'.rest

theorem Reads.push (ahead : s'.ahead = s.ahead) (tokens : s'.tokens = s.tokens)
    (spells : Spells kind s'.pending.reverse) (longest : Longest s'.pending.reverse s'.rest) :
    ∃ g, Reads s (s'.push kind) g := by
  have spelled : Token.Spelled ⟨kind, s'.lexeme, s'.line⟩ := by
    rw [Token.Spelled, toList_lexeme]
    exact spells
  refine ⟨.token ⟨kind, s'.lexeme, s'.line⟩, ?_, ?_, ?_⟩
  · rw [← ahead, Segment.text, toList_lexeme]
    rfl
  · simp [Scanner.push, tokens, Segment.token?]
  · refine ⟨spelled.lexeme_ne, spelled, fun k mem => spelled.keyword_iff mem, ?_⟩
    rw [toList_lexeme]
    exact longest

theorem reads_number (read : s.pending = [c]) (digit : Text.isDigit c = true)
    (h : number s = .ok () s') : ∃ g, Reads s s' g := by
  have digits : ∀ e ∈ c :: s.rest.takeWhile Text.isDigit, Text.isDigit e = true :=
    of_mem_cons_takeWhile digit
  have pending := pending_skipWhile Text.isDigit read
  have whole (point : ∀ e es, (s.skipWhile Text.isDigit).rest = '.' :: e :: es →
      Text.isDigit e = false) : ∃ g, Reads s ((s.skipWhile Text.isDigit).push .integer) g := by
    refine Reads.push (ahead_skipWhile _ s) rfl ?_ ?_ <;> rw [pending]
    · exact .integer digits
    · exact longest_integer digits (fun d => head?_dropWhile) point
  unfold number at h
  dsimp only at h
  split at h
  · cases h
  · rename_i d rest next
    split at h
    · rename_i digit'
      cases h
      have skipped := skip_of_rest next
      have spelled : ((s.skipWhile Text.isDigit).skip.skipWhile Text.isDigit).pending.reverse =
          (c :: s.rest.takeWhile Text.isDigit) ++ '.' :: d :: rest.takeWhile Text.isDigit := by
        rw [← pending, skipped]
        simp [skipWhile, digit']
      refine Reads.push ?_ ?_ ?_ ?_
      · rw [ahead_skipWhile, ahead_skip, ahead_skipWhile]
      · rw [skipped]
        rfl
      · rw [spelled]
        exact .float digits (of_mem_cons_takeWhile digit')
      · rw [spelled]
        exact longest_float digits fun d => head?_dropWhile
    · rename_i other
      cases h
      refine whole fun e es eq => ?_
      rw [next] at eq
      cases eq
      simpa using other
  · rename_i other
    cases h
    exact whole fun e es eq => absurd eq (other e es)

theorem reads_string (read : s.pending = [c]) (quote : c = '"' ∨ c = '\'')
    (h : string c s = .ok () s') : ∃ g, Reads s s' g := by
  unfold string stringUntil at h
  dsimp only at h
  split at h
  · cases h
  · rename_i nonempty
    cases h
    obtain ⟨d, rest, next⟩ := List.exists_cons_of_ne_nil nonempty
    -- The character that stops the search is the quote.
    have stops : d = c := by
      have found : (s.rest.dropWhile (fun d => !(d == c))).head? = some d :=
        congrArg List.head? next
      simpa using head?_dropWhile found
    subst stops
    have spelled : (s.skipWhile (fun e => !(e == d))).skip.pending.reverse =
        d :: s.rest.takeWhile (fun e => !(e == d)) ++ [d] := by
      rw [skip_of_rest next, List.reverse_cons, pending_skipWhile _ read]
    refine Reads.push ?_ ?_ ?_ ?_
    · rw [ahead_skip, ahead_skipWhile]
    · rw [skip_of_rest next]
      rfl
    · rw [spelled]
      refine .string quote fun mem => ?_
      simpa using of_mem_takeWhile d mem
    · rw [spelled]
      exact longest_string quote

theorem reads_word (read : s.pending = [c]) (start : isNameStart c = true)
    (h : word s = .ok () s') : ∃ g, Reads s s' g := by
  have spelled : (s.skipWhile isNameChar).pending.reverse = c :: s.rest.takeWhile isNameChar :=
    pending_skipWhile _ read
  unfold word at h
  dsimp only at h
  cases h
  refine Reads.push (ahead_skipWhile _ s) rfl ?_ ?_
  · rw [lexeme, spelled]
    exact (Scanned.word start of_mem_takeWhile).spells
  · rw [spelled]
    exact longest_word start fun d => head?_dropWhile

/-- The next character is the one asked for and is read, or it stays. -/
theorem accept_cases (d : Char) (s : Scanner) :
    (∃ rest, s.rest = d :: rest ∧
      s.accept d = (true, { s with pending := d :: s.pending, rest })) ∨
      (s.rest.head? ≠ some d ∧ s.accept d = (false, s)) := by
  unfold accept acceptIf
  split
  · rename_i ended
    simp [ended]
  · rename_i e rest next
    by_cases same : e = d
    · subst same
      simp [next]
    · simp [same, next]

theorem reads_minus (read : s.pending = ['-']) : ∃ g, Reads s s.minus g := by
  unfold minus
  rcases accept_cases '-' s with ⟨rest, next, accepted⟩ | ⟨next, refused⟩
  · rw [accepted]
    refine ⟨.comment (rest.takeWhile (· != '\n')), ?_, ?_, ?_, ?_⟩
    · simp [ahead, read, next, Segment.text, skipWhile]
    · simp [Segment.token?, skipWhile]
    · intro mem
      simpa using of_mem_takeWhile _ mem
    · refine longest_comment fun d next => ?_
      simpa using head?_dropWhile next
  · rw [refused]
    refine Reads.push rfl rfl ?_ ?_ <;> rw [read]
    · exact Scanned.minus.spells
    · exact longest_minus next

theorem reads_blank (read : s.pending = [c]) (blank : c ∈ [' ', '\t', '\r', '\n'])
    (rest : s'.rest = s.rest) (tokens : s'.tokens = s.tokens) : ∃ g, Reads s s' g := by
  refine ⟨.blank c, ?_, ?_, blank⟩
  · simp [ahead, read, rest, Segment.text]
  · simp [tokens, Segment.token?]

theorem reads_item (read : s.pending = [c]) (h : item c s = .ok () s') : ∃ g, Reads s s' g := by
  unfold item at h
  split at h
  · rename_i newline
    cases h
    exact reads_blank read (by simp_all) rfl rfl
  split at h
  · rename_i blank
    cases h
    refine reads_blank read ?_ rfl rfl
    simp only [Bool.or_eq_true, beq_iff_eq] at blank
    rcases blank with (rfl | rfl) | rfl <;> decide
  split at h
  · rename_i minus
    cases h
    exact reads_minus (by simpa [read] using minus)
  split at h
  · rename_i quote
    exact reads_string read (by simpa using quote) h
  split at h
  · rename_i kind single
    cases h
    refine Reads.push rfl rfl ?_ ?_ <;> rw [read]
    · exact (Scanned.single single).spells
    · exact longest_single single
  split at h
  · rename_i kind paired found
    rcases accept_cases '=' s with ⟨rest, next, accepted⟩ | ⟨next, refused⟩
    · rw [accepted] at h
      cases h
      have spelled : ('=' :: s.pending).reverse = [c, '='] := by simp [read]
      refine Reads.push ?_ rfl ?_ ?_
      · simp [ahead, next]
      · rw [spelled]
        exact (Scanned.paired found).spells
      · rw [spelled]
        exact longest_paired found
    · rw [refused] at h
      cases h
      refine Reads.push rfl rfl ?_ ?_ <;> rw [read]
      · exact (Scanned.alone found).spells
      · exact longest_alone found next
  split at h
  · rename_i digit
    exact reads_number read digit h
  split at h
  · rename_i start
    exact reads_word read start h
  · cases h

/-- A scanner that gets to the end reads one segment after the other. -/
theorem scanAll_segments (h : s.scanAll = .ok () s') :
    ∃ gs : List Segment, gs.flatMap Segment.text = s.rest ∧
      s'.tokens.toList = s.tokens.toList ++ gs.filterMap Segment.token? ∧ Segment.AllFit gs := by
  fun_induction scanAll s with
  | case1 s ended =>
    cases h
    exact ⟨[], by simp [ended], by simp, trivial⟩
  | case2 => cases h
  | case3 s c rest next s₁ read ih =>
    obtain ⟨g, text, tokens, fits⟩ := reads_item rfl read
    obtain ⟨gs, texts, tokens', fit⟩ := ih h
    refine ⟨g :: gs, ?_, ?_, ?_, fit⟩
    · rw [List.flatMap_cons, texts, ← text, next]
      rfl
    · rw [tokens', tokens, List.append_assoc]
      congr 1
      cases g <;> rfl
    · rw [texts]
      exact fits

end Scanner

theorem Segment.AllFit.spelled {gs : List Segment} {t : Token} (h : AllFit gs)
    (mem : t ∈ gs.filterMap token?) : t.Spelled := by
  induction gs with
  | nil => cases mem
  | cons g gs ih =>
    obtain ⟨fits, fit⟩ := h
    cases g with
    | token t' =>
      rcases List.mem_cons.mp mem with rfl | mem
      · exact fits.2.1
      · exact ih fit mem
    | blank | comment => exact ih fit mem

/-- The tokens of a source text are spelled as their kinds ask. -/
theorem tokens_spelled {source : String} {tokens : List Token}
    (h : tokenize source = .ok tokens) : ∀ t ∈ tokens, t.Spelled := by
  intro t mem
  unfold tokenize at h
  split at h
  · rename_i scanned
    cases h
    obtain ⟨gs, -, tokens, fit⟩ := Scanner.scanAll_segments scanned
    refine fit.spelled ?_
    rw [tokens] at mem
    simpa [Scanner.ofString] using mem
  · cases h

/-- A source text that can be scanned is its tokens in order, with blanks and comments between
them, each as long as it can be. -/
theorem tokenize_segments {source : String} {tokens : List Token}
    (h : tokenize source = .ok tokens) :
    ∃ gs : List Segment, gs.flatMap Segment.text = source.toList ∧
      gs.filterMap Segment.token? = tokens ∧ Segment.AllFit gs := by
  unfold tokenize at h
  split at h
  · rename_i scanned
    cases h
    obtain ⟨gs, texts, tokens, fit⟩ := Scanner.scanAll_segments scanned
    refine ⟨gs, texts, ?_, fit⟩
    simpa [Scanner.ofString] using tokens.symm
  · cases h

/-- A name, a sign, a number with a point, a comment, and a reserved word on the next line. -/
theorem segments_of_lines :
    ∃ gs : List Segment, gs.flatMap Segment.text = "a1:=2.5 --b-\nif".toList ∧
      gs.filterMap Segment.token? =
        [⟨.identifier, "a1", 1⟩, ⟨.assign, ":=", 1⟩, ⟨.float, "2.5", 1⟩, ⟨.kwIf, "if", 2⟩] ∧
      Segment.AllFit gs :=
  tokenize_segments (by cbv)

end ScriptLang
