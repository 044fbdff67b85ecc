import Mathlib
import ScriptLang.Proofs.Parse.Whole

/-!
Programs one after the other.

A statement is read again behind any other tokens, and one that ended with its text ends before any
token that could not extend it (`stmt_local`). So the statements of two texts one after the other
are those of the first and then those of the second (`program_append`), as long as the second text
starts a statement: there is nothing else that separates statements.
-/

namespace ScriptLang.Parse

/-- Statements that end with the text are read again before other statements, if the first token of
those extends no statement. -/
theorem stmts_then {c c' : Cursor} {ss : List Stmt} (h : (stmts c).Gives ss c')
    (ended : c'.ahead = []) {rest : List Token} (stop : Stops stmtExtenders rest) {us : List Stmt}
    {c'' : Cursor} (others : (stmts ⟨c'.behind, rest⟩).Gives us c'') :
    (stmts ⟨c.behind, c.ahead ++ rest⟩).Gives (ss ++ us) c'' := by
  rcases stmts_gives.mp h with ⟨ends, rfl, rfl⟩ | ⟨goesOn, s, c₁, tail, given, more, rfl⟩
  · rw [ended]
    exact others
  · have shorter := given.size_lt
    obtain ⟨ts, spans, again⟩ := (stmt_local given).first shorter
    -- what the first statement is followed by is what is left of the text, or `rest` itself
    have follows : Replaces stmtExtenders c₁.ahead (c₁.ahead ++ rest) := by
      cases left : c₁.ahead with
      | nil => exact replaces_of_stops stop
      | cons t after => exact replaces_cons t
    obtain ⟨⟨t, old, new, ahead, ahead'⟩, given'⟩ := again c.behind (c₁.ahead ++ rest) follows
    rw [← List.append_assoc, ← spans.ahead] at given' ahead'
    rw [← spans.behind] at given'
    refine stmts_gives.mpr (.inr ⟨endsBlock_of_first ahead ahead' goesOn, s, _, tail ++ us, given',
      stmts_then more ended stop others, rfl⟩)
termination_by c.size

/-- The statements of a text behind another one. -/
theorem stmts_behind {tokens before : List Token} {ss : List Stmt} {c : Cursor}
    (given : (stmts (Cursor.ofList tokens)).Gives ss c) :
    (stmts ⟨before, tokens⟩).Gives ss ⟨c.behind ++ before, c.ahead⟩ := by
  obtain ⟨ts, spans, again⟩ := stmts_local given
  have behind : c.behind = ts.reverse := by simpa [Cursor.ofList] using spans.behind
  have ahead : tokens = ts ++ c.ahead := spans.ahead
  rw [behind, ahead]
  exact again before c.ahead (endsStmts_of_endsBlock (stmts_derives given).2)

/-- If a text is read to its end as a program, and a second one starts a statement and is read as a
program, then the two one after the other are read as the statements of the first followed by those
of the second, up to the place where reading the second stopped. -/
theorem program_append {as bs : List Token} {b₁ b₂ : Block} {c₁ c₂ : Cursor}
    {shorter₁ : c₁.size < as.length + 1} {shorter₂ : c₂.size < bs.length + 1}
    (first : program as = .ok b₁ c₁ shorter₁) (whole : c₁.position = as.length)
    (starts : Starts stmtStarts bs) (second : program bs = .ok b₂ c₂ shorter₂) :
    ∃ b c shorter, program (as ++ bs) = .ok b c shorter ∧ b.stmts = b₁.stmts ++ b₂.stmts ∧
      c.position = as.length + c₂.position := by
  obtain ⟨ss, last, read, previous, rfl⟩ := block_gives.mp ⟨shorter₁, first⟩
  obtain ⟨us, last', read', -, rfl⟩ := block_gives.mp ⟨shorter₂, second⟩
  obtain ⟨ts, spans, -⟩ := stmts_local read
  have ended : c₁.ahead = [] := by
    rw [← (spans_ofList spans).2, whole, List.drop_length]
  have stop : Stops stmtExtenders bs := starts.stops (by decide)
  have joined := stmts_then read ended stop (stmts_behind read')
  have known : ∃ t, Cursor.previous? ⟨c₂.behind ++ c₁.behind, c₂.ahead⟩ = some t := by
    cases behind : c₁.behind with
    | nil => simp [Cursor.previous?, behind, ended] at previous
    | cons t before =>
      cases read : c₂.behind with
      | nil => exact ⟨t, rfl⟩
      | cons t' before' => exact ⟨t', rfl⟩
  obtain ⟨t, known⟩ := known
  obtain ⟨shorter, parsed⟩ := block_gives.mpr ⟨ss ++ us, t, joined, known, rfl⟩
  refine ⟨_, _, shorter, parsed, rfl, ?_⟩
  rw [← whole, Cursor.position, Cursor.position, Cursor.position, List.length_append, Nat.add_comm]

/-- The tokens of `x := a`. -/
def copying : List Token := [⟨.identifier, "x", 1⟩, ⟨.assign, ":=", 1⟩, ⟨.identifier, "a", 1⟩]

/-- The tokens of `f() if b then end end`. -/
def callingThenStray : List Token :=
  [⟨.identifier, "f", 2⟩, ⟨.lparen, "(", 2⟩, ⟨.rparen, ")", 2⟩, ⟨.kwIf, "if", 3⟩,
    ⟨.identifier, "b", 3⟩, ⟨.kwThen, "then", 4⟩, ⟨.kwEnd, "end", 5⟩, ⟨.kwEnd, "end", 6⟩]

/-- A name ends the first text and starts the second; the last word of the second is not read. -/
theorem copying_append_callingThenStray :
    ∃ b₁ c₁ h₁ b₂ c₂ h₂, program copying = .ok b₁ c₁ h₁ ∧ c₁.position = copying.length ∧
      Starts stmtStarts callingThenStray ∧ program callingThenStray = .ok b₂ c₂ h₂ ∧
      c₂.position = 7 ∧ b₂.stmts.length = 2 ∧
      ∃ b c shorter, program (copying ++ callingThenStray) = .ok b c shorter ∧
        b.stmts = .assign (.name "x" 1) (.name "a" 1) 1 :: b₂.stmts ∧ c.position = 10 := by
  have first : program copying =
      .ok (.mk [.assign (.name "x" 1) (.name "a" 1) 1] 1) ⟨copying.reverse, []⟩ (by decide) := by
    cbv
  have second : program callingThenStray =
      .ok (.mk [.call "f" [] 2, .branch (.name "b" 3) (.mk [] 4) none 5] 5)
        ⟨(callingThenStray.take 7).reverse, callingThenStray.drop 7⟩ (by decide) := by
    cbv
  have starts : Starts stmtStarts callingThenStray := ⟨_, _, rfl, by decide⟩
  exact ⟨_, _, _, _, _, _, first, rfl, starts, second, rfl, rfl,
    program_append first rfl starts second⟩

end ScriptLang.Parse
