import ScriptLang.Proofs.Token.Segments

/-!
Source texts are cut in one way only.

Two segments that fit at the same place of a text have the same characters (`Fits.unique`), and the
characters tell the kind of a token (`Spells.unique`). So a scanner goes along every cut of its text
into segments that fit: the tokens that it finds are those of the cut, each on the line that the
line breaks outside of tokens give (`scanAll_of_cut`).
-/

namespace ScriptLang

open Text (marks marks_plain isNameStart_of_isDigit)

variable {c d : Char} {cs more rest rest' : List Char} {k k' : Kind}

/-! ### The kind of a spelling -/

namespace Kind

/-- The kind of token that characters spell, if they spell one. -/
def ofChars : List Char → Kind
  | [] => .identifier
  | c :: cs =>
    if Scanner.isNameStart c then (keyword? (String.ofList (c :: cs))).getD .identifier
    else if Text.isDigit c then if '.' ∈ cs then .float else .integer
    else if c = '"' ∨ c = '\'' then .string
    else
      match withEquals? c with
      | some (alone, paired) => if cs = [] then alone else paired
      | none => (single? c).getD .minus

end Kind

theorem Spells.kind_eq (h : Spells k cs) : k = Kind.ofChars cs := by
  cases h.scanned with
  | single found =>
    unfold Kind.single? at found
    split at found <;> cases found <;> rfl
  | minus => rfl
  | alone found | paired found =>
    unfold Kind.withEquals? at found
    split at found <;> cases found <;> rfl
  | string quote => rcases quote with rfl | rfl <;> rfl
  | @integer d ds digits =>
    obtain ⟨digit, digits⟩ := List.forall_mem_cons.mp digits
    have point : '.' ∉ ds := fun mem => absurd (digits '.' mem) (by decide)
    simp [Kind.ofChars, isNameStart_of_isDigit digit, digit, point]
  | float digits =>
    have digit := digits _ List.mem_cons_self
    simp [Kind.ofChars, isNameStart_of_isDigit digit, digit]
  | word start => simp [Kind.ofChars, start]

/-- Characters spell tokens of one kind only. -/
theorem Spells.unique (h : Spells k cs) (h' : Spells k' cs) : k = k' :=
  h.kind_eq.trans h'.kind_eq.symm

/-! ### Segments at one place -/

theorem Spells.start (h : Spells k (c :: cs)) :
    c ∈ marks ∨ Text.isDigit c = true ∨ Scanner.isNameStart c = true := by
  generalize all : c :: cs = text at h
  cases h.scanned with
  | single found => cases all; exact .inl (mem_marks_of_single? found)
  | minus => cases all; exact .inl (by decide)
  | alone found | paired found => cases all; exact .inl (mem_marks_of_withEquals? found)
  | string quote =>
    rw [(List.cons.inj all).1]
    exact .inl (mem_marks_of_quote quote)
  | integer digits | float digits =>
    rw [(List.cons.inj all).1]
    exact .inr (.inl (digits _ List.mem_cons_self))
  | word start => cases all; exact .inr (.inr start)

theorem blanks_plain : ∀ c ∈ [' ', '\t', '\r', '\n'],
    c ∉ marks ∧ Text.isDigit c = false ∧ Scanner.isNameStart c = false := by
  have all : ([' ', '\t', '\r', '\n'].all fun c =>
      !marks.contains c && (!Text.isDigit c && !Scanner.isNameStart c)) = true := by decide
  simpa only [List.all_eq_true, Bool.and_eq_true, Bool.not_eq_true', List.contains_eq_mem,
    decide_eq_false_iff_not] using all

theorem Spells.not_blank (h : Spells k (c :: cs)) : c ∉ [' ', '\t', '\r', '\n'] := by
  intro blank
  obtain ⟨mark, digit, start⟩ := blanks_plain c blank
  rcases h.start with mem | digit' | start'
  · exact mark mem
  · rw [digit] at digit'
    cases digit'
  · rw [start] at start'
    cases start'

theorem Spells.closing (h : Spells k (c :: cs)) (quote : c = '"' ∨ c = '\'') : c ∈ cs := by
  obtain ⟨digit, start⟩ := marks_plain c (mem_marks_of_quote quote)
  generalize all : c :: cs = text at h
  cases h.scanned with
  | single found => rcases quote with rfl | rfl <;> cases all <;> cases found
  | minus => rcases quote with rfl | rfl <;> cases all
  | alone found | paired found =>
    cases all
    have plain := withEquals?_plain found
    exact (quote.elim plain.1 plain.2.1).elim
  | string =>
    obtain ⟨rfl, rfl⟩ := List.cons.inj all
    simp
  | integer digits | float digits =>
    have digit' := digits _ List.mem_cons_self
    rw [← (List.cons.inj all).1, digit] at digit'
    cases digit'
  | word start' =>
    rw [← (List.cons.inj all).1, start] at start'
    cases start'

/-- Two dashes start a comment and no token. -/
theorem Spells.not_dashes (h : Spells k ('-' :: '-' :: cs)) : False := by
  generalize all : '-' :: '-' :: cs = text at h
  cases h.scanned with
  | single | minus | alone => cases all
  | paired => cases all
  | string quote =>
    rw [← (List.cons.inj all).1] at quote
    simp at quote
  | integer digits | float digits =>
    have digit := digits _ List.mem_cons_self
    rw [← (List.cons.inj all).1] at digit
    cases digit
  | word start =>
    rw [← (List.cons.inj all).1] at start
    cases start

theorem Lexical.not_blank (h : Lexical (c :: cs)) : c ∉ [' ', '\t', '\r', '\n'] := by
  rcases h with ⟨kind, spells⟩ | ⟨body, eq, -⟩
  · exact spells.not_blank
  · rw [(List.cons.inj eq).1]
    decide

namespace Segment

variable {g g' : Segment}

/-- The segment with its token on a line. -/
def on (line : Line) : Segment → Segment
  | .token t => .token { t with line }
  | .blank c => .blank c
  | .comment body => .comment body

/-- The line behind a segment. Line breaks inside a token are not counted. -/
def next (line : Line) : Segment → Line
  | .blank c => if c = '\n' then line + 1 else line
  | .token _ | .comment _ => line

/-- The segments with their tokens on the lines that a scanner gives them. -/
def numbered : Line → List Segment → List Segment
  | _, [] => []
  | line, g :: gs => g.on line :: numbered (g.next line) gs

theorem Fits.text_ne_nil (h : g.Fits rest) : g.text ≠ [] := by
  cases g with
  | token t => exact h.2.1.ne_nil
  | blank | comment => exact List.cons_ne_nil _ _

theorem Fits.start (h : g.Fits rest) (chars : g.text = c :: cs) :
    c ∈ [' ', '\t', '\r', '\n'] ∨ c ∈ marks ∨ Text.isDigit c = true ∨
      Scanner.isNameStart c = true := by
  cases g with
  | token t =>
    have spelled : Spells t.kind t.lexeme.toList := h.2.1
    rw [show t.lexeme.toList = c :: cs from chars] at spelled
    exact .inr spelled.start
  | blank d =>
    cases chars
    exact .inl h
  | comment body =>
    cases chars
    exact .inr (.inl (by decide))

/-- A segment that starts with a quote has it again. -/
theorem Fits.closing (h : g.Fits rest) (chars : g.text = c :: cs) (quote : c = '"' ∨ c = '\'') :
    c ∈ cs := by
  cases g with
  | token t =>
    have spelled : Spells t.kind t.lexeme.toList := h.2.1
    rw [show t.lexeme.toList = c :: cs from chars] at spelled
    exact spelled.closing quote
  | blank d =>
    cases chars
    have plain : '"' ∉ [' ', '\t', '\r', '\n'] ∧ '\'' ∉ [' ', '\t', '\r', '\n'] := by decide
    rcases quote with rfl | rfl
    · exact absurd h plain.1
    · exact absurd h plain.2
  | comment body =>
    cases chars
    simp at quote

/-- Only blanks are no tokens or comments, and they are one character long. -/
theorem Fits.lexical (h : g.Fits rest) (long : 1 < g.text.length) : Lexical g.text := by
  cases g with
  | token t => exact .inl ⟨t.kind, h.2.1⟩
  | blank c => exact absurd long (by simp [text])
  | comment body => exact .inr ⟨body, rfl, h.1⟩

/-- What fits cannot be longer. -/
theorem Fits.no_more (h : g.Fits rest) (h' : g'.Fits rest') (text : g'.text = g.text ++ more)
    (pre : more <+: rest) : more = [] := by
  apply Classical.byContradiction
  intro nonempty
  have lexical : Lexical (g.text ++ more) := by
    rw [← text]
    refine h'.lexical ?_
    have left := List.length_pos_iff.mpr h.text_ne_nil
    have right := List.length_pos_iff.mpr nonempty
    rw [text, List.length_append]
    omega
  cases g with
  | token t => exact h.2.2.2 more nonempty pre lexical
  | blank c => exact lexical.not_blank h
  | comment body => exact h.2 more nonempty pre lexical

/-- Two segments that fit at the same place have the same characters. -/
theorem Fits.unique (h : g.Fits rest) (h' : g'.Fits rest')
    (same : g.text ++ rest = g'.text ++ rest') : g.text = g'.text ∧ rest = rest' := by
  rcases List.append_eq_append_iff.mp same with ⟨more, text, tail⟩ | ⟨more, text, tail⟩
  · have none := h.no_more h' text ⟨rest', tail.symm⟩
    subst none
    exact ⟨by simpa using text.symm, by simpa using tail⟩
  · have none := h'.no_more h text ⟨rest, tail.symm⟩
    subst none
    exact ⟨by simpa using text, by simpa using tail.symm⟩

/-- A segment with the characters of a token is that token, on some line. -/
theorem Fits.eq_token {t : Token} (h : g.Fits rest) (spelled : t.Spelled)
    (same : g.text = t.lexeme.toList) : ∃ line, g = .token { t with line } := by
  rw [Token.Spelled] at spelled
  cases g with
  | token t' =>
    have lexeme : t'.lexeme = t.lexeme := String.toList_inj.mp same
    have kind : t'.kind = t.kind := by
      refine Spells.unique h.2.1 ?_
      rw [lexeme]
      exact spelled
    exact ⟨t'.line, by rw [← kind, ← lexeme]⟩
  | blank c =>
    rw [← same] at spelled
    exact absurd h spelled.not_blank
  | comment body =>
    rw [← same] at spelled
    exact spelled.not_dashes.elim

/-- Segments with the same characters differ at most by the line of their token. -/
theorem Fits.on_eq (h : g.Fits rest) (h' : g'.Fits rest') (same : g.text = g'.text) (line : Line) :
    g.on line = g'.on line := by
  cases g with
  | token t =>
    obtain ⟨line', rfl⟩ := h'.eq_token h.2.1 same.symm
    rfl
  | blank c =>
    cases g' with
    | token t =>
      obtain ⟨line', eq⟩ := h.eq_token h'.2.1 same
      cases eq
    | blank c' => rw [(List.cons.inj same).1]
    | comment => cases same
  | comment body =>
    cases g' with
    | token t =>
      obtain ⟨line', eq⟩ := h.eq_token h'.2.1 same
      cases eq
    | blank => cases same
    | comment body' =>
      cases same
      rfl

theorem fits_token {t : Token} (spelled : t.Spelled) (longest : Longest t.lexeme.toList rest) :
    (token t).Fits rest :=
  ⟨spelled.lexeme_ne, spelled, fun _ mem => spelled.keyword_iff mem, longest⟩

end Segment

/-! ### Scanning along a cut -/

namespace Scanner

variable {s s' : Scanner} {g : Segment} {gs : List Segment} {e : ScanError}

/-- The scanner `s'` is on the line of `s` and has one more token, on that line. -/
def AddsOne (s s' : Scanner) : Prop :=
  s'.line = s.line ∧ ∃ kind lexeme, s'.tokens = s.tokens.push ⟨kind, lexeme, s.line⟩

theorem addsOne_push (line : s'.line = s.line) (tokens : s'.tokens = s.tokens) :
    AddsOne s (s'.push k) :=
  ⟨line, k, s'.lexeme, by rw [push, tokens, line]⟩

theorem skip_line (s : Scanner) : s.skip.line = s.line := by
  unfold skip
  split <;> rfl

theorem skip_tokens (s : Scanner) : s.skip.tokens = s.tokens := by
  unfold skip
  split <;> rfl

theorem accept_line (d : Char) (s : Scanner) : (s.accept d).2.line = s.line := by
  rcases accept_cases d s with ⟨rest, -, accepted⟩ | ⟨-, refused⟩
  · rw [accepted]
  · rw [refused]

theorem accept_tokens (d : Char) (s : Scanner) : (s.accept d).2.tokens = s.tokens := by
  rcases accept_cases d s with ⟨rest, -, accepted⟩ | ⟨-, refused⟩
  · rw [accepted]
  · rw [refused]

theorem number_addsOne (h : number s = .ok () s') : AddsOne s s' := by
  unfold number at h
  dsimp only at h
  split at h
  · cases h
  · split at h <;> cases h
    · exact addsOne_push (skip_line _) (skip_tokens _)
    · exact addsOne_push rfl rfl
  · cases h
    exact addsOne_push rfl rfl

theorem string_addsOne (h : string c s = .ok () s') : AddsOne s s' := by
  unfold string stringUntil at h
  dsimp only at h
  split at h <;> cases h
  exact addsOne_push (skip_line _) (skip_tokens _)

/-- What a scanner does with a character that it has read. -/
inductive Handles (c : Char) : Scan Unit → Prop where
  | newline : c = '\n' → Handles c fun s => .ok () { s with line := s.line + 1 }
  | blank : c ∈ [' ', '\t', '\r'] → Handles c fun s => .ok () s
  | minus : c = '-' → Handles c fun s => .ok () s.minus
  | string : c = '"' ∨ c = '\'' → Handles c (string c)
  | single {k : Kind} : Kind.single? c = some k → Handles c fun s => .ok () (s.push k)
  | withEquals {alone paired : Kind} : Kind.withEquals? c = some (alone, paired) →
      Handles c fun s =>
        .ok () ((s.accept '=').2.push (if (s.accept '=').1 then paired else alone))
  | number : Text.isDigit c = true → Handles c number
  | word : isNameStart c = true → Handles c word
  | unexpected : c ∉ [' ', '\t', '\r', '\n'] → c ∉ marks → Text.isDigit c = false →
      isNameStart c = false → Handles c fun s => .error (.unexpected c s.line) s

theorem marks_cases : ∀ c ∈ marks, c = '-' ∨ (c = '"' ∨ c = '\'') ∨
    (Kind.single? c).isSome = true ∨ (Kind.withEquals? c).isSome = true := by
  have all : (marks.all fun c => c == '-' || ((c == '"' || c == '\'') ||
      ((Kind.single? c).isSome || (Kind.withEquals? c).isSome))) = true := by decide
  simpa only [List.all_eq_true, Bool.or_eq_true, beq_iff_eq] using all

/-- The character alone decides what is done. -/
theorem exists_handles (c : Char) : ∃ act, Handles c act ∧ ∀ s, item c s = act s := by
  by_cases newline : (c == '\n') = true
  · refine ⟨_, .newline (by simpa using newline), fun s => ?_⟩
    rw [item, if_pos newline]
  by_cases blank : (c == ' ' || c == '\t' || c == '\r') = true
  · refine ⟨_, .blank (by simpa [or_assoc] using blank), fun s => ?_⟩
    rw [item, if_neg newline, if_pos blank]
  by_cases minus : (c == '-') = true
  · refine ⟨_, .minus (by simpa using minus), fun s => ?_⟩
    rw [item, if_neg newline, if_neg blank, if_pos minus]
  by_cases quote : (c == '"' || c == '\'') = true
  · refine ⟨_, .string (by simpa using quote), fun s => ?_⟩
    rw [item, if_neg newline, if_neg blank, if_neg minus, if_pos quote]
  cases single : Kind.single? c with
  | some k =>
    refine ⟨_, .single single, fun s => ?_⟩
    rw [item, if_neg newline, if_neg blank, if_neg minus, if_neg quote, single]
  | none =>
    cases paired : Kind.withEquals? c with
    | some p =>
      refine ⟨_, .withEquals paired, fun s => ?_⟩
      rw [item, if_neg newline, if_neg blank, if_neg minus, if_neg quote, single, paired]
      rcases accept_cases '=' s with ⟨rest, -, accepted⟩ | ⟨-, refused⟩
      · simp only [accepted, if_true]
      · simp only [refused, Bool.false_eq_true, if_false]
    | none =>
      have others (s : Scanner) : item c s = if Text.isDigit c then number s
          else if isNameStart c then word s else .error (.unexpected c s.line) s := by
        rw [item, if_neg newline, if_neg blank, if_neg minus, if_neg quote, single, paired]
      by_cases digit : Text.isDigit c = true
      · exact ⟨_, .number digit, fun s => (others s).trans (if_pos digit)⟩
      by_cases start : isNameStart c = true
      · refine ⟨_, .word start, fun s => ?_⟩
        rw [others, if_neg digit, if_pos start]
      have mark : c ∉ marks := by
        intro mem
        rcases marks_cases c mem with rfl | isQuote | isSingle | isPaired
        · exact minus rfl
        · exact quote (by simpa using isQuote)
        · simp [single] at isSingle
        · simp [paired] at isPaired
      refine ⟨_, .unexpected (by simp_all) mark (by simpa using digit) (by simpa using start),
        fun s => ?_⟩
      rw [others, if_neg digit, if_neg start]

/-- Only a line break moves a scanner to the next line, and a token gets the line where it starts.
-/
theorem item_line (h : item c s = .ok () s') :
    s'.line = (Segment.blank c).next s.line ∧ s'.tokens = s.tokens ∨ AddsOne s s' := by
  obtain ⟨act, handles, same⟩ := exists_handles c
  rw [same] at h
  cases handles with
  | newline newline =>
    cases h
    exact .inl ⟨by simp [Segment.next, newline], rfl⟩
  | blank blank =>
    cases h
    have other : c ≠ '\n' := by
      rintro rfl
      simp at blank
    exact .inl ⟨by simp [Segment.next, other], rfl⟩
  | minus minus =>
    cases h
    unfold Scanner.minus
    rcases accept_cases '-' s with ⟨rest, -, accepted⟩ | ⟨-, refused⟩
    · rw [accepted]
      exact .inl ⟨by simp [Segment.next, minus, skipWhile], rfl⟩
    · rw [refused]
      exact .inr (addsOne_push rfl rfl)
  | string => exact .inr (string_addsOne h)
  | single =>
    cases h
    exact .inr (addsOne_push rfl rfl)
  | withEquals =>
    cases h
    exact .inr (addsOne_push (accept_line '=' s) (accept_tokens '=' s))
  | number => exact .inr (number_addsOne h)
  | word =>
    unfold Scanner.word at h
    cases h
    exact .inr (addsOne_push rfl rfl)
  | unexpected => cases h

/-- The line behind the segment that is read, and that of its token. -/
theorem Reads.line (reads : Reads s s' g) (read : s.pending = [c]) (h : item c s = .ok () s') :
    s'.line = g.next s.line ∧ g.on s.line = g := by
  have tokens := reads.tokens
  rcases item_line h with ⟨line, same⟩ | ⟨line, kind, lexeme, pushed⟩
  · rw [same, List.self_eq_append_right] at tokens
    have text := reads.text
    rw [ahead, read] at text
    cases g with
    | token t => cases tokens
    | blank c' =>
      cases (List.cons.inj text).1
      exact ⟨line, rfl⟩
    | comment body =>
      cases (List.cons.inj text).1
      exact ⟨line, rfl⟩
  · rw [pushed, Array.toList_push, List.append_cancel_left_eq] at tokens
    cases g with
    | token t =>
      cases tokens
      exact ⟨line, rfl⟩
    | blank | comment => cases tokens

/-- A segment that fits is the one that is read. -/
theorem item_along (read : s.pending = [c]) (h : item c s = .ok () s')
    (text : s.ahead = g.text ++ rest) (fits : g.Fits rest) :
    s'.rest = rest ∧ s'.line = g.next s.line ∧
      s'.tokens.toList = s.tokens.toList ++ (g.on s.line).token?.toList := by
  obtain ⟨g', reads⟩ := reads_item read h
  obtain ⟨same, tail⟩ := fits.unique reads.fits (text.symm.trans reads.text)
  obtain ⟨line, on⟩ := reads.line read h
  have form : g.on s.line = g' := (fits.on_eq reads.fits same s.line).trans on
  refine ⟨tail.symm, ?_, ?_⟩
  · rw [line, ← form]
    cases g <;> rfl
  · rw [form]
    exact reads.tokens

theorem eq_nil_of_flatMap_text (fit : Segment.AllFit gs) (h : gs.flatMap Segment.text = []) :
    gs = [] := by
  cases gs with
  | nil => rfl
  | cons g gs => exact absurd (List.append_eq_nil_iff.mp h).1 fit.1.text_ne_nil

/-! ### Texts that can be scanned -/

/-- A number can be read unless a point after its digits ends the text. -/
theorem number_error (h : number s = .error e s') :
    e = .pastEnd ∧ ∃ ds, (∀ d ∈ ds, Text.isDigit d = true) ∧ s.rest = ds ++ ['.'] := by
  unfold number at h
  dsimp only at h
  split at h
  · rename_i next
    cases h
    refine ⟨rfl, s.rest.takeWhile Text.isDigit, of_mem_takeWhile, ?_⟩
    have dropped : s.rest.dropWhile Text.isDigit = ['.'] := next
    rw [← dropped, List.takeWhile_append_dropWhile]
  · split at h <;> cases h
  · cases h

/-- A string can be read unless it is not closed. -/
theorem string_error (h : string c s = .error e s') : e = .unterminated s.line ∧ c ∉ s.rest := by
  unfold string stringUntil at h
  dsimp only at h
  split at h
  · rename_i ended
    cases h
    refine ⟨rfl, fun mem => ?_⟩
    have dropped : s.rest.dropWhile (fun d => !(d == c)) = [] := ended
    rw [← List.takeWhile_append_dropWhile (p := fun d => !(d == c)) (l := s.rest), dropped,
      List.append_nil] at mem
    simpa using of_mem_takeWhile c mem
  · cases h

/-- The ways in which scanning stops: a character that starts nothing, a string that is not closed,
or a text that ends with a point after digits. -/
theorem item_error (h : item c s = .error e s') :
    (e = .unexpected c s.line ∧ c ∉ [' ', '\t', '\r', '\n'] ∧ c ∉ marks ∧
        Text.isDigit c = false ∧ isNameStart c = false) ∨
      (e = .unterminated s.line ∧ (c = '"' ∨ c = '\'') ∧ c ∉ s.rest) ∨
      (e = .pastEnd ∧ Text.isDigit c = true ∧
        ∃ ds, (∀ d ∈ ds, Text.isDigit d = true) ∧ s.rest = ds ++ ['.']) := by
  obtain ⟨act, handles, same⟩ := exists_handles c
  rw [same] at h
  cases handles with
  | newline | blank | minus | single | withEquals | word => cases h
  | string quote =>
    obtain ⟨error, absent⟩ := string_error h
    exact .inr (.inl ⟨error, quote, absent⟩)
  | number digit =>
    obtain ⟨error, shape⟩ := number_error h
    exact .inr (.inr ⟨error, digit, shape⟩)
  | unexpected blank mark digit start =>
    cases h
    exact .inl ⟨rfl, blank, mark, digit, start⟩

/-- A segment that fits can be read, unless it is a token and a point behind it ends the text. -/
theorem item_of_fits (read : s.pending = [c]) (text : s.ahead = g.text ++ rest)
    (fits : g.Fits rest) (point : ∀ t, g = .token t → rest ≠ ['.']) :
    ∃ s', item c s = .ok () s' := by
  cases h : item c s with
  | ok _ s' => exact ⟨s', rfl⟩
  | error e s' =>
    exfalso
    rw [ahead, read, List.reverse_singleton, List.singleton_append] at text
    obtain ⟨d, cs, chars⟩ := List.exists_cons_of_ne_nil fits.text_ne_nil
    obtain ⟨rfl, tail⟩ : c = d ∧ s.rest = cs ++ rest := by
      rw [chars] at text
      exact List.cons.inj text
    rcases item_error h with ⟨-, blank, mark, digit, name⟩ | ⟨-, quote, absent⟩ |
      ⟨-, digit, ds, digits, tail'⟩
    · rcases fits.start chars with blank' | mark' | digit' | name'
      · exact blank blank'
      · exact mark mark'
      · simp [digit] at digit'
      · simp [name] at name'
    · rw [tail] at absent
      exact absent (List.mem_append_left _ (fits.closing chars quote))
    · -- The digits are a token in front of the point, and no other segment fits there.
      have digits : ∀ e ∈ c :: ds, Text.isDigit e = true :=
        List.forall_mem_cons.mpr ⟨digit, digits⟩
      have spelled : Token.Spelled ⟨.integer, String.ofList (c :: ds), 0⟩ := by
        rw [Token.Spelled, String.toList_ofList]
        exact .integer digits
      have number : (Segment.token ⟨.integer, String.ofList (c :: ds), 0⟩).Fits ['.'] := by
        refine Segment.fits_token spelled ?_
        rw [String.toList_ofList]
        exact longest_integer digits (by simp; decide) (by simp)
      have whole : g.text ++ rest = (c :: ds) ++ ['.'] := by
        rw [← text, tail']
        rfl
      obtain ⟨same, last⟩ := fits.unique number (by simpa [Segment.text] using whole)
      obtain ⟨line, token⟩ := fits.eq_token spelled same
      exact point _ token last

/-- The first segment of a cut starts with the next character. -/
theorem exists_first (text : gs.flatMap Segment.text = s.rest) (next : s.rest = c :: rest) :
    ∃ g gs', gs = g :: gs' ∧
      { s.mark with pending := [c], rest }.ahead = g.text ++ gs'.flatMap Segment.text := by
  rw [next] at text
  cases gs with
  | nil => cases text
  | cons g gs => exact ⟨g, gs, rfl, text.symm⟩

/-- A scanner that gets to the end finds the tokens of every cut of its text that fits. -/
theorem scanAll_along (h : s.scanAll = .ok () s') (text : gs.flatMap Segment.text = s.rest)
    (fit : Segment.AllFit gs) : s'.tokens.toList =
      s.tokens.toList ++ (Segment.numbered s.line gs).filterMap Segment.token? := by
  fun_induction scanAll s generalizing gs with
  | case1 s ended =>
    cases h
    rw [eq_nil_of_flatMap_text fit (text.trans ended)]
    simp [Segment.numbered]
  | case2 => cases h
  | case3 s c rest next s₁ read ih =>
    obtain ⟨g, gs, rfl, ahead⟩ := exists_first text next
    obtain ⟨tail, line, tokens⟩ := item_along rfl read ahead fit.1
    rw [ih h tail.symm fit.2, tokens, line, List.append_assoc]
    congr 1
    cases g <;> rfl

/-- A text that is cut into segments can be scanned, unless a token and a point are its end. -/
theorem scanAll_of_cut (text : gs.flatMap Segment.text = s.rest) (fit : Segment.AllFit gs)
    (point : ∀ before t after, gs = before ++ .token t :: after →
      after.flatMap Segment.text ≠ ['.']) : ∃ s', s.scanAll = .ok () s' := by
  fun_induction scanAll s generalizing gs with
  | case1 s ended => exact ⟨s, rfl⟩
  | case2 s c rest next e s₁ failed =>
    obtain ⟨g, gs, rfl, ahead⟩ := exists_first text next
    obtain ⟨s₂, read⟩ := item_of_fits rfl ahead fit.1 fun t token =>
      point [] t gs (by rw [token]; rfl)
    rw [failed] at read
    cases read
  | case3 s c rest next s₁ read ih =>
    obtain ⟨g, gs, rfl, ahead⟩ := exists_first text next
    obtain ⟨tail, -⟩ := item_along rfl read ahead fit.1
    refine ih tail.symm fit.2 fun before t after split => point (g :: before) t after ?_
    rw [split]
    rfl

end Scanner

theorem tokenize_eq_ok_iff {source : String} {tokens : List Token} :
    tokenize source = .ok tokens ↔
      ∃ s, (Scanner.ofString source).scanAll = .ok () s ∧ s.tokens.toList = tokens := by
  unfold tokenize
  cases scanned : (Scanner.ofString source).scanAll with
  | ok u s => simp
  | error e s => simp

end ScriptLang
