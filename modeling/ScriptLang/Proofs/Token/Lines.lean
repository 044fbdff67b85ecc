import ScriptLang.Proofs.Token.Cuts

/-!
The lines that tokens are said to stand on.

A scanner counts the line breaks between tokens and passes over those inside of strings. So a token
has the number of its line exactly if no string before it has a line break
(`line_true_iff_no_break_in_strings`).
-/

namespace ScriptLang

variable {k : Kind} {cs rest : List Char}

/-- A line break can only be part of a string. -/
theorem Spells.string_of_break (h : Spells k cs) (mem : '\n' ∈ cs) : k = .string := by
  have plain : Kind.single? '\n' = none ∧ Kind.withEquals? '\n' = none := by decide
  cases h.scanned with
  | string => rfl
  | minus => simp at mem
  | single found =>
    rw [← List.mem_singleton.mp mem, plain.1] at found
    cases found
  | alone found =>
    rw [← List.mem_singleton.mp mem, plain.2] at found
    cases found
  | paired found =>
    rcases List.mem_cons.mp mem with rfl | mem
    · rw [plain.2] at found
      cases found
    · simp at mem
  | integer digits => exact absurd (digits _ mem) (by decide)
  | float digits digits' =>
    rcases List.mem_append.mp mem with mem | mem
    · exact absurd (digits _ mem) (by decide)
    · rcases List.mem_cons.mp mem with point | mem
      · cases point
      · exact absurd (digits' _ mem) (by decide)
  | word start chars =>
    rcases List.mem_cons.mp mem with rfl | mem
    · exact absurd start (by decide)
    · exact absurd (chars _ mem) (by decide)

namespace Segment

variable {g : Segment} {gs before after : List Segment} {t : Token} {line : Line}

/-- The segments are the source text without a gap, each as long as it can be, and the tokens are
those among them. -/
structure Cut (source : String) (tokens : List Token) (gs : List Segment) : Prop where
  text : gs.flatMap Segment.text = source.toList
  tokens : gs.filterMap Segment.token? = tokens
  fit : AllFit gs

/-- The line breaks inside of tokens. -/
def breaksInTokens (gs : List Segment) : Nat :=
  ((gs.filterMap token?).flatMap fun t => t.lexeme.toList).count '\n'

/-- Segments with the tokens that a scanner finds are numbered as by the scanner. -/
theorem eq_numbered (h : gs.filterMap token? = (numbered line gs).filterMap token?) :
    gs = numbered line gs := by
  induction gs generalizing line with
  | nil => rfl
  | cons g gs ih =>
    cases g with
    | token t =>
      obtain ⟨first, rest⟩ := List.cons.inj h
      rw [numbered, ← ih rest, on, ← first]
    | blank | comment => rw [numbered, ← ih h, on]

theorem line_of_numbered
    (h : before ++ .token t :: after = numbered line (before ++ .token t :: after)) :
    t.line = before.foldl next line := by
  induction before generalizing line with
  | nil =>
    have first := (List.cons.inj h).1
    rw [on, token.injEq] at first
    rw [first]
    rfl
  | cons g before ih => exact ih (List.cons.inj h).2

/-- A segment moves a scanner on by its line breaks, those inside of a token apart. -/
theorem Fits.next_eq (h : g.Fits rest) (line : Line) (gs : List Segment) :
    g.next line + breaksInTokens (g :: gs) = line + g.text.count '\n' + breaksInTokens gs := by
  cases g with
  | token t =>
    simp only [Line, next, breaksInTokens, List.filterMap_cons, token?, List.flatMap_cons,
      List.count_append, text]
    omega
  | blank c =>
    rw [show breaksInTokens (.blank c :: gs) = breaksInTokens gs from rfl]
    by_cases newline : c = '\n' <;> simp [next, text, newline]
  | comment body =>
    have none : body.count '\n' = 0 := List.count_eq_zero.mpr h.1
    rw [show breaksInTokens (.comment body :: gs) = breaksInTokens gs from rfl]
    simp [next, text, none]

theorem AllFit.foldl_next_eq (h : AllFit (gs ++ after)) (line : Line) :
    gs.foldl next line + breaksInTokens gs = line + (gs.flatMap text).count '\n' := by
  induction gs generalizing line with
  | nil => simp [breaksInTokens]
  | cons g gs ih =>
    have first := h.1.next_eq line gs
    have others := ih h.2 (g.next line)
    rw [List.foldl_cons, List.flatMap_cons, List.count_append]
    simp only [Line] at first others ⊢
    omega

/-- Only strings have line breaks inside. -/
theorem AllFit.breaksInTokens_eq_zero (h : AllFit (gs ++ after)) : breaksInTokens gs = 0 ↔
    ∀ t ∈ gs.filterMap token?, t.kind = .string → '\n' ∉ t.lexeme.toList := by
  rw [breaksInTokens, List.count_eq_zero, List.mem_flatMap]
  constructor
  · intro none t mem _ newline
    exact none ⟨t, mem, newline⟩
  · rintro none ⟨t, mem, newline⟩
    have spelled : Spells t.kind t.lexeme.toList := by
      refine h.spelled ?_
      rw [List.filterMap_append]
      exact List.mem_append_left _ mem
    exact none t mem (spelled.string_of_break newline) newline

end Segment

/-- A text that can be scanned can be cut. -/
theorem Segment.exists_cut {source : String} {tokens : List Token}
    (h : tokenize source = .ok tokens) : ∃ gs, Cut source tokens gs := by
  obtain ⟨s, scanned, rfl⟩ := tokenize_eq_ok_iff.mp h
  obtain ⟨gs, texts, tokens, fit⟩ := Scanner.scanAll_segments scanned
  exact ⟨gs, texts, by simpa [Scanner.ofString] using tokens.symm, fit⟩

/-- The tokens of every cut of a source text are numbered as by the scanner. -/
theorem Segment.Cut.eq_numbered {source : String} {tokens : List Token} {gs : List Segment}
    (cut : Cut source tokens gs) (h : tokenize source = .ok tokens) : gs = numbered 1 gs := by
  apply Segment.eq_numbered
  obtain ⟨s, scanned, rfl⟩ := tokenize_eq_ok_iff.mp h
  rw [cut.tokens, Scanner.scanAll_along scanned cut.text cut.fit]
  simp [Scanner.ofString]

/-- A token's line is one more than the number of line breaks before it that are not inside of
tokens. This is the line that it stands on exactly if no string before it has a line break. -/
theorem line_true_iff_no_break_in_strings {source : String} {tokens : List Token}
    (h : tokenize source = .ok tokens) :
    (∃ gs, Segment.Cut source tokens gs) ∧
      ∀ gs, Segment.Cut source tokens gs → ∀ before t after, gs = before ++ .token t :: after →
        t.line + (Segment.breaksInTokens before : Int) =
          1 + ((before.flatMap Segment.text).count '\n' : Int) ∧
        (t.line = 1 + ((before.flatMap Segment.text).count '\n' : Int) ↔
          ∀ u ∈ before.filterMap Segment.token?, u.kind = .string → '\n' ∉ u.lexeme.toList) := by
  refine ⟨?_, ?_⟩
  · exact Segment.exists_cut h
  · rintro gs cut before t after rfl
    have line := Segment.line_of_numbered (cut.eq_numbered h)
    have counted := cut.fit.foldl_next_eq 1
    rw [← line] at counted
    refine ⟨counted, ?_⟩
    rw [← cut.fit.breaksInTokens_eq_zero]
    simp only [Line] at counted ⊢
    omega

/-- A string over two lines, and a name behind it. -/
def twoLines : List Segment :=
  [.token ⟨.string, "'a\nb'", 1⟩, .blank ' ', .token ⟨.identifier, "x", 1⟩]

theorem twoLines_cut : Segment.Cut "'a\nb' x" (twoLines.filterMap Segment.token?) twoLines where
  text := by decide
  tokens := rfl
  fit := by
    have string : "'a\nb'".toList = '\'' :: ['a', '\n', 'b'] ++ ['\''] := by decide
    have word : "x".toList = ['x'] := by decide
    refine ⟨Segment.fits_token ?_ ?_, List.mem_cons_self, Segment.fits_token ?_ ?_, trivial⟩
    · rw [Token.Spelled, string]
      exact .string (.inr rfl) (by decide)
    · rw [string]
      exact longest_string (.inr rfl)
    · rw [Token.Spelled, word]
      exact (@Scanned.word 'x' [] (by decide) (by simp)).spells
    · rw [word]
      exact longest_word (by decide) (by simp)

theorem twoLines_scanned :
    tokenize "'a\nb' x" = .ok (twoLines.filterMap Segment.token?) := by
  cbv

/-- The name stands on the second line and is said to stand on the first. -/
theorem twoLines_one_short :
    tokenize "'a\nb' x" = .ok (twoLines.filterMap Segment.token?) ∧
      Segment.Cut "'a\nb' x" (twoLines.filterMap Segment.token?) twoLines ∧
      (1 : Int) + Segment.breaksInTokens (twoLines.take 2) =
        1 + (((twoLines.take 2).flatMap Segment.text).count '\n' : Int) ∧
      ((1 : Int) = 1 + (((twoLines.take 2).flatMap Segment.text).count '\n' : Int) ↔
        ∀ u ∈ (twoLines.take 2).filterMap Segment.token?,
          u.kind = .string → '\n' ∉ u.lexeme.toList) :=
  ⟨twoLines_scanned, twoLines_cut,
    (line_true_iff_no_break_in_strings twoLines_scanned).2 _ twoLines_cut (twoLines.take 2)
      ⟨.identifier, "x", 1⟩ [] rfl⟩

theorem break_in_string_uncounted : ¬∀ source tokens gs, tokenize source = .ok tokens →
    Segment.Cut source tokens gs → ∀ before t after, gs = before ++ .token t :: after →
      t.line = 1 + ((before.flatMap Segment.text).count '\n' : Int) := by
  intro all
  have line := all _ _ _ twoLines_scanned twoLines_cut (twoLines.take 2) _ [] rfl
  revert line
  decide

end ScriptLang
