import ScriptLang.Proofs.Token.Cuts

/-!
Tokens written down again.

How a token is read does not depend on its neighbours: the lexemes of the tokens of a source text,
with one blank between them, are read as tokens of the same kinds with the same lexemes
(`tokens_of_spaced_lexemes`).
-/

namespace ScriptLang

variable {k : Kind} {cs rest : List Char}

/-- A token cannot be longer in front of a blank or at the end. -/
theorem Spells.longest (h : Spells k cs) (next : ∀ d, rest.head? = some d → d = ' ') :
    Longest cs rest := by
  have other (d : Char) (ne : d ≠ ' ') : rest.head? ≠ some d := fun head => ne (next d head)
  have stop {p : Char → Bool} (fail : p ' ' = false) (d : Char) (head : rest.head? = some d) :
      p d = false := by
    rw [next d head]
    exact fail
  cases h.scanned with
  | single found => exact longest_single found
  | minus => exact longest_minus (other '-' (by decide))
  | alone found => exact longest_alone found (other '=' (by decide))
  | paired found => exact longest_paired found
  | string quote => exact longest_string quote
  | integer digits =>
    refine longest_integer digits (stop (by decide)) fun e es point => ?_
    exact absurd (congrArg List.head? point) (other '.' (by decide))
  | float digits => exact longest_float digits (stop (by decide))
  | word start => exact longest_word start (stop (by decide))

namespace Segment

/-- Tokens with one blank between them. -/
def spaced : List Token → List Segment
  | [] => []
  | [t] => [.token t]
  | t :: u :: ts => .token t :: .blank ' ' :: spaced (u :: ts)

theorem text_spaced (ts : List Token) :
    (spaced ts).flatMap text = (" ".intercalate (ts.map Token.lexeme)).toList := by
  fun_induction spaced ts with
  | case1 => simp
  | case2 t => simp [text]
  | case3 t u ts ih =>
    rw [List.flatMap_cons, List.flatMap_cons, ih]
    simp [String.intercalate_cons_cons, text]

theorem tokens_spaced (ts : List Token) : (spaced ts).filterMap token? = ts := by
  fun_induction spaced ts with
  | case1 => rfl
  | case2 t => rfl
  | case3 t u ts ih =>
    change t :: (spaced (u :: ts)).filterMap token? = t :: u :: ts
    rw [ih]

theorem fit_spaced {ts : List Token} (spelled : ∀ t ∈ ts, t.Spelled) : AllFit (spaced ts) := by
  fun_induction spaced ts with
  | case1 => trivial
  | case2 t =>
    have first := spelled t List.mem_cons_self
    exact ⟨fits_token first (first.longest (by simp)), trivial⟩
  | case3 t u ts ih =>
    obtain ⟨first, others⟩ := List.forall_mem_cons.mp spelled
    refine ⟨fits_token first (first.longest ?_), List.mem_cons_self, ih others⟩
    intro d head
    exact (Option.some.inj head).symm

/-- Behind a token there is a blank or nothing. -/
theorem spaced_behind {ts : List Token} {before after : List Segment} {t : Token}
    (h : spaced ts = before ++ .token t :: after) : after.flatMap text ≠ ['.'] := by
  fun_induction spaced ts generalizing before with
  | case1 => simp at h
  | case2 u =>
    cases before with
    | nil =>
      cases h
      simp
    | cons => simp at h
  | case3 u v ts ih =>
    cases before with
    | nil =>
      cases h
      simp [text]
    | cons _ before =>
      obtain ⟨-, h⟩ := List.cons.inj h
      cases before with
      | nil => cases h
      | cons _ before => exact ih (List.cons.inj h).2

/-- Numbering changes lines only. -/
theorem forms_numbered (line : Line) (gs : List Segment) :
    ((numbered line gs).filterMap token?).map (fun t => (t.kind, t.lexeme)) =
      (gs.filterMap token?).map fun t => (t.kind, t.lexeme) := by
  induction gs generalizing line with
  | nil => rfl
  | cons g gs ih =>
    cases g with
    | token t => exact congrArg ((t.kind, t.lexeme) :: ·) (ih line)
    | blank c => exact ih (next line (.blank c))
    | comment body => exact ih line

end Segment

/-- Scanning the lexemes of a source text, with blanks between them, gives its tokens again. -/
theorem tokens_of_spaced_lexemes {source : String} {tokens : List Token}
    (h : tokenize source = .ok tokens) :
    ∃ tokens', tokenize (" ".intercalate (tokens.map Token.lexeme)) = .ok tokens' ∧
      tokens'.map (fun t => (t.kind, t.lexeme)) = tokens.map fun t => (t.kind, t.lexeme) := by
  have text := Segment.text_spaced tokens
  have fit := Segment.fit_spaced (tokens_spelled h)
  obtain ⟨s, scanned⟩ := Scanner.scanAll_of_cut (s := .ofString _) text fit fun _ _ _ split =>
    Segment.spaced_behind split
  refine ⟨s.tokens.toList, tokenize_eq_ok_iff.mpr ⟨s, scanned, rfl⟩, ?_⟩
  rw [Scanner.scanAll_along scanned text fit]
  have forms := Segment.forms_numbered 1 (Segment.spaced tokens)
  rw [Segment.tokens_spaced] at forms
  exact forms

/-- Signs and numbers without blanks, a comment, and a string over two lines. -/
theorem crowded_lexemes_again :
    tokenize "x:=-2.5--y\n'a\nb'" = .ok [⟨.identifier, "x", 1⟩, ⟨.assign, ":=", 1⟩,
      ⟨.minus, "-", 1⟩, ⟨.float, "2.5", 1⟩, ⟨.string, "'a\nb'", 2⟩] ∧
    ∃ tokens', tokenize "x := - 2.5 'a\nb'" = .ok tokens' ∧
      tokens'.map (fun t => (t.kind, t.lexeme)) = [(.identifier, "x"), (.assign, ":="),
        (.minus, "-"), (.float, "2.5"), (.string, "'a\nb'")] := by
  have scanned : tokenize "x:=-2.5--y\n'a\nb'" = .ok [⟨.identifier, "x", 1⟩, ⟨.assign, ":=", 1⟩,
      ⟨.minus, "-", 1⟩, ⟨.float, "2.5", 1⟩, ⟨.string, "'a\nb'", 2⟩] := by cbv
  exact ⟨scanned, tokens_of_spaced_lexemes scanned⟩

end ScriptLang
