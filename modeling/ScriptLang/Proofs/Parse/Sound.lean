import Mathlib
import ScriptLang.Proofs.Parse.Grammar
import ScriptLang.Proofs.Parse.StmtRules

/-!
The parser keeps all tokens.

What a parsing rule gives is derived by the grammar from exactly the tokens between the place where
the rule started and the place where it stopped (`level_derives`, `stmt_derives`, `block_derives`).
The derived trees nest as the ranks of their operators say (`Derives.nested`), and a program ends
with the tokens or before a word that closes a block.
-/

namespace ScriptLang.Parse

/-! ### Powers stop before no further power -/

theorem exponentRest_stop {c c' : Cursor} {l e : Expr} (before : c.Before [.caret]) :
    (exponentRest l c).Gives e c' ↔ l = e ∧ c = c' := by
  rw [exponentRest_gives]
  constructor
  · rintro (⟨op, rest, right, c₁, ahead, caret, -⟩ | ⟨-, eq⟩)
    · exact absurd (List.mem_singleton.mpr caret) ((Cursor.before_of_ahead ahead).mp before)
    · exact eq
  · exact fun eq => .inr ⟨before, eq⟩

theorem exponentRest_before {c c' : Cursor} {l e : Expr} (h : (exponentRest l c).Gives e c') :
    c'.Before [.caret] := by
  rcases exponentRest_gives.mp h with
    ⟨op, rest, right, c₁, ahead, -, given, more⟩ | ⟨before, -, rfl⟩
  · have shorter := Cursor.size_past_lt ahead
    have shorter' := given.size_lt
    exact exponentRest_before more
  · exact before
termination_by c.size
decreasing_by all_goals decreasing_with omega

theorem exponent_before {c c' : Cursor} {e : Expr} (h : (exponent c).Gives e c') :
    c'.Before [.caret] := by
  obtain ⟨left, c₁, -, rest⟩ := exponent_gives.mp h
  exact exponentRest_before rest

/-! ### Expressions -/

mutual
theorem level_derives {n : Nat} {c c' : Cursor} {e : Expr} (low : n ≤ loosest)
    (h : (level n c).Gives e c') : ∃ ts, c.Spans ts c' ∧ Derives Eq (.level n e) ts := by
  cases n with
  | zero =>
    obtain ⟨ts, spans, derived⟩ := unary_derives (level_zero_gives.mp h)
    exact ⟨ts, spans, .operand derived⟩
  | succ n =>
    obtain ⟨left, c₁, first, rest⟩ := level_succ_gives.mp h
    have shorter := first.size_lt
    obtain ⟨ts, spans, derived⟩ := level_derives (Nat.le_of_succ_le low) first
    obtain ⟨us, spans', derived'⟩ := levelRest_derives low rest (.tighter derived)
    exact ⟨ts ++ us, spans.trans spans', derived'⟩
termination_by (c.size, n + 3)
decreasing_by all_goals decreasing_with omega

/-- The operations that follow an operand take it as their left operand. -/
theorem levelRest_derives {n : Nat} {c c' : Cursor} {l e : Expr} {ts : List Token}
    (low : n < loosest) (h : (levelRest n l c).Gives e c')
    (derived : Derives Eq (.level (n + 1) l) ts) :
    ∃ us, c.Spans us c' ∧ Derives Eq (.level (n + 1) e) (ts ++ us) := by
  rcases levelRest_gives.mp h with
    ⟨op, rest, right, c₁, ahead, mem, given, more⟩ | ⟨-, rfl, rfl⟩
  · have shorter := Cursor.size_past_lt ahead
    have shorter' := given.size_lt
    obtain ⟨us, spans, derived'⟩ := level_derives (Nat.le_of_lt low) given
    have rank := (mem_operators_iff low).mp mem
    have joined : Derives Eq (.level (n + 1) (operation n op l right)) (ts ++ op :: us) := by
      unfold operation
      split
      · exact .binary ‹_› derived rfl rank derived'
      · exact .logical (Nat.le_of_not_lt ‹_›) derived rfl rank derived'
    obtain ⟨vs, spans', final⟩ := levelRest_derives low more joined
    refine ⟨op :: us ++ vs, ?_, by simpa using final⟩
    exact ((Cursor.Spans.past ahead).trans spans).trans spans'
  · exact ⟨[], .refl _, by simpa using derived⟩
termination_by (c.size, 0)
decreasing_by all_goals decreasing_with omega

theorem unary_derives {c c' : Cursor} {e : Expr} (h : (unary c).Gives e c') :
    ∃ ts, c.Spans ts c' ∧ Derives Eq (.signed e) ts := by
  rcases unary_gives.mp h with ⟨op, rest, operand, ahead, sign, given, rfl⟩ | ⟨-, given⟩
  · have shorter := Cursor.size_past_lt ahead
    obtain ⟨ts, spans, derived⟩ := unary_derives given
    exact ⟨op :: ts, (Cursor.Spans.past ahead).trans spans,
      .sign rfl sign derived⟩
  · obtain ⟨ts, spans, derived⟩ := exponent_derives given
    exact ⟨ts, spans, .unsigned derived⟩
termination_by (c.size, 2)
decreasing_by all_goals decreasing_with omega

/-- Another power never follows a power, so the left operand of a power is the operand read
first. -/
theorem exponent_derives {c c' : Cursor} {e : Expr} (h : (exponent c).Gives e c') :
    ∃ ts, c.Spans ts c' ∧ Derives Eq (.power e) ts := by
  obtain ⟨left, c₁, first, rest⟩ := exponent_gives.mp h
  obtain ⟨ts, spans, derived⟩ := primary_derives first
  rcases exponentRest_gives.mp rest with
    ⟨op, rest', right, c₂, ahead, caret, given, more⟩ | ⟨-, rfl, rfl⟩
  · have shorter := first.size_lt
    have shorter' := Cursor.size_past_lt ahead
    obtain ⟨us, spans', derived'⟩ := exponent_derives given
    obtain ⟨rfl, rfl⟩ := (exponentRest_stop (exponent_before given)).mp more
    exact ⟨ts ++ op :: us, spans.trans ((Cursor.Spans.past ahead).trans spans'),
      .raised derived rfl caret derived'⟩
  · exact ⟨ts, spans, .base derived⟩
termination_by (c.size, 1)
decreasing_by all_goals decreasing_with omega

theorem primary_derives {c c' : Cursor} {e : Expr} (h : (primary c).Gives e c') :
    ∃ ts, c.Spans ts c' ∧ Derives Eq (.primary e) ts := by
  cases primary_gives.mp h with
  | integer ahead kind read => exact ⟨_, .past ahead, .integer kind read⟩
  | real ahead kind read => exact ⟨_, .past ahead, .real kind read⟩
  | yes ahead kind => exact ⟨_, .past ahead, .yes kind⟩
  | no ahead kind => exact ⟨_, .past ahead, .no kind⟩
  | text ahead kind => exact ⟨_, .past ahead, .text kind (encloses_iff.mpr rfl)⟩
  | name ahead kind before => exact ⟨_, .past ahead, .name kind⟩
  | group ahead kind given ahead' closes =>
    have shorter := Cursor.size_past_lt ahead
    obtain ⟨ts, spans, derived⟩ := level_derives (Nat.le_refl _) given
    exact ⟨_, ((Cursor.Spans.past ahead).trans spans).trans (.past ahead'),
      .group kind derived closes⟩
  | @call t paren rest _ _ _ _ ahead kind opens given ahead' closes =>
    have shorter := Cursor.size_past_lt ahead
    have shorter' := Cursor.size_past_lt (Cursor.ahead_past c t (paren :: rest))
    obtain ⟨ts, spans, derived⟩ := args_derives given
    exact ⟨_, (((Cursor.Spans.past ahead).trans (.past rfl)).trans spans).trans (.past ahead'),
      .call kind opens derived closes⟩
termination_by (c.size, 0)
decreasing_by all_goals decreasing_with omega

theorem args_derives {c c' : Cursor} {es : List Expr} (h : (args c).Gives es c') :
    ∃ ts, c.Spans ts c' ∧ Derives Eq (.args es) ts := by
  cases args_gives.mp h with
  | none closes => exact ⟨[], .refl _, .noArgs⟩
  | last before given closes =>
    obtain ⟨ts, spans, derived⟩ := level_derives (Nat.le_refl _) given
    exact ⟨ts, spans, .lastArg derived⟩
  | @more e c₁ comma c₂ es _ before given separated others =>
    have shorter := given.size_lt
    have shorter' := separated.size_lt
    obtain ⟨ts, spans, derived⟩ := level_derives (Nat.le_refl _) given
    obtain ⟨us, spans', derived'⟩ := args_derives others
    obtain ⟨rest, ahead, kind, rfl⟩ := Cursor.expect_gives.mp separated
    have spans'' := spans.trans ((Cursor.Spans.past ahead).trans spans')
    cases es with
    | nil =>
      cases derived'
      exact ⟨_, spans'', .lastArgComma derived kind⟩
    | cons e' es => exact ⟨_, spans'', .moreArgs derived kind derived'⟩
termination_by (c.size, loosest + 4)
decreasing_by all_goals decreasing_with omega
end

/-! ### Statements -/

theorem params_derives {count : Nat} {c c' : Cursor} {ps : List Param}
    (h : (params count c).Gives ps c') (room : count ≤ maxParams) :
    ∃ ts, c.Spans ts c' ∧ Derives Eq (.params ps) ts ∧ count + ps.length ≤ maxParams := by
  cases params_gives.mp h with
  | none closes => exact ⟨[], .refl _, .noParams, room⟩
  | last read few closes =>
    obtain ⟨rest, ahead, kind, rfl⟩ := Cursor.expect_gives.mp read
    exact ⟨_, .past ahead, .lastParam kind, few⟩
  | @more t c₁ comma c₂ ps _ read few separated others =>
    have shorter := read.size_lt
    have shorter' := separated.size_lt
    obtain ⟨ts, spans, derived, bound⟩ := params_derives others few
    obtain ⟨rest, ahead, kind, rfl⟩ := Cursor.expect_gives.mp read
    obtain ⟨rest', ahead', kind', rfl⟩ := Cursor.expect_gives.mp separated
    have spans' := (Cursor.Spans.past ahead).trans ((Cursor.Spans.past ahead').trans spans)
    cases ps with
    | nil =>
      cases derived
      exact ⟨_, spans', .lastParamComma kind kind', few⟩
    | cons p ps =>
      refine ⟨_, spans', .moreParams kind kind' derived, ?_⟩
      simp only [List.length_cons] at bound ⊢
      omega
termination_by c.size
decreasing_by all_goals decreasing_with omega

theorem expr_derives {c c' : Cursor} {e : Expr} (h : (expr c).Gives e c') :
    ∃ ts, c.Spans ts c' ∧ Derives Eq (.level loosest e) ts :=
  level_derives (Nat.le_refl _) h

theorem exprAfter?_derives {c c' : Cursor} {o : Option Expr}
    (h : (exprAfter? .comma c).Gives o c') : ∃ ts, c.Spans ts c' ∧ Derives Eq (.step o) ts := by
  rcases exprAfter?_gives.mp h with ⟨t, c₁, e, read, given, rfl⟩ | ⟨-, rfl, rfl⟩
  · obtain ⟨rest, ahead, kind, rfl⟩ := Cursor.expect_gives.mp read
    obtain ⟨ts, spans, derived⟩ := expr_derives given
    exact ⟨_, (Cursor.Spans.past ahead).trans spans, .someStep kind derived⟩
  · exact ⟨[], .refl _, .noStep⟩

/-- A name that was read is written as one identifier. -/
theorem primary_name_derives {c c' : Cursor} {var : String} {line : Line}
    (h : (primary c).Gives (.name var line) c') :
    ∃ t, c.Spans [t] c' ∧ t.kind = .identifier ∧ t.lexeme = var := by
  cases primary_gives.mp h with
  | name ahead kind before => exact ⟨_, .past ahead, kind, rfl⟩

theorem expect_spans {c c' : Cursor} {k : Kind} {t : Token} (h : (c.expect k).Gives t c') :
    c.Spans [t] c' ∧ t.kind = k := by
  obtain ⟨rest, ahead, kind, rfl⟩ := Cursor.expect_gives.mp h
  exact ⟨.past ahead, kind⟩

mutual
theorem stmt_derives {c c' : Cursor} {s : Stmt} (h : (stmt c).Gives s c') :
    ∃ ts, c.Spans ts c' ∧ Derives Eq (.stmt s) ts := by
  cases stmt_gives.mp h with
  | print r₁ r₂ =>
    obtain ⟨s₁, k₁⟩ := expect_spans r₁
    obtain ⟨ts, s₂, d₂⟩ := expr_derives r₂
    exact ⟨_, s₁.trans s₂, .print k₁ d₂⟩
  | println r₁ r₂ =>
    obtain ⟨s₁, k₁⟩ := expect_spans r₁
    obtain ⟨ts, s₂, d₂⟩ := expr_derives r₂
    exact ⟨_, s₁.trans s₂, .println k₁ d₂⟩
  | branch r₁ r₂ r₃ r₄ r₅ r₆ =>
    have l₁ := r₁.size_lt
    have l₂ := r₂.size_lt
    have l₃ := r₃.size_lt
    have l₄ := r₄.size_lt
    obtain ⟨s₁, k₁⟩ := expect_spans r₁
    obtain ⟨ts₂, s₂, d₂⟩ := expr_derives r₂
    obtain ⟨s₃, k₃⟩ := expect_spans r₃
    obtain ⟨ts₄, s₄, d₄⟩ := block_derives r₄
    obtain ⟨ts₅, s₅, d₅⟩ := elseBlock?_derives r₅
    obtain ⟨s₆, k₆⟩ := expect_spans r₆
    refine ⟨_, ?_, .branch k₁ d₂ k₃ d₄ d₅ k₆⟩
    simpa using s₁.trans (s₂.trans (s₃.trans (s₄.trans (s₅.trans s₆))))
  | loop r₁ r₂ r₃ r₄ r₅ =>
    have l₁ := r₁.size_lt
    have l₂ := r₂.size_lt
    have l₃ := r₃.size_lt
    obtain ⟨s₁, k₁⟩ := expect_spans r₁
    obtain ⟨ts₂, s₂, d₂⟩ := expr_derives r₂
    obtain ⟨s₃, k₃⟩ := expect_spans r₃
    obtain ⟨ts₄, s₄, d₄⟩ := block_derives r₄
    obtain ⟨s₅, k₅⟩ := expect_spans r₅
    refine ⟨_, ?_, .loop k₁ d₂ k₃ d₄ k₅⟩
    simpa using s₁.trans (s₂.trans (s₃.trans (s₄.trans s₅)))
  | count r₁ r₂ r₃ r₄ r₅ r₆ r₇ r₈ r₉ r₁₀ =>
    have l₁ := r₁.size_lt
    have l₂ := r₂.size_lt
    have l₃ := r₃.size_lt
    have l₄ := r₄.size_lt
    have l₅ := r₅.size_lt
    have l₆ := r₆.size_lt
    have l₇ := r₇.size_lt
    have l₈ := r₈.size_lt
    obtain ⟨s₁, k₁⟩ := expect_spans r₁
    obtain ⟨var, s₂, k₂, rfl⟩ := primary_name_derives r₂
    obtain ⟨s₃, k₃⟩ := expect_spans r₃
    obtain ⟨ts₄, s₄, d₄⟩ := expr_derives r₄
    obtain ⟨s₅, k₅⟩ := expect_spans r₅
    obtain ⟨ts₆, s₆, d₆⟩ := expr_derives r₆
    obtain ⟨ts₇, s₇, d₇⟩ := exprAfter?_derives r₇
    obtain ⟨s₈, k₈⟩ := expect_spans r₈
    obtain ⟨ts₉, s₉, d₉⟩ := block_derives r₉
    obtain ⟨s₁₀, k₁₀⟩ := expect_spans r₁₀
    refine ⟨_, ?_, .count k₁ k₂ k₃ d₄ k₅ d₆ d₇ k₈ d₉ k₁₀⟩
    simpa using s₁.trans (s₂.trans (s₃.trans (s₄.trans (s₅.trans (s₆.trans (s₇.trans
      (s₈.trans (s₉.trans s₁₀))))))))
  | func r₁ r₂ r₃ r₄ r₅ r₆ r₇ =>
    have l₁ := r₁.size_lt
    have l₂ := r₂.size_lt
    have l₃ := r₃.size_lt
    have l₄ := r₄.size_lt
    have l₅ := r₅.size_lt
    obtain ⟨s₁, k₁⟩ := expect_spans r₁
    obtain ⟨s₂, k₂⟩ := expect_spans r₂
    obtain ⟨s₃, k₃⟩ := expect_spans r₃
    obtain ⟨ts₄, s₄, d₄, few⟩ := params_derives r₄ (Nat.zero_le _)
    obtain ⟨s₅, k₅⟩ := expect_spans r₅
    obtain ⟨ts₆, s₆, d₆⟩ := block_derives r₆
    obtain ⟨s₇, k₇⟩ := expect_spans r₇
    refine ⟨_, ?_, .func k₁ k₂ k₃ d₄ (by simpa [maxParams] using few) k₅ d₆ k₇⟩
    simpa using s₁.trans (s₂.trans (s₃.trans (s₄.trans (s₅.trans (s₆.trans s₇)))))
  | ret r₁ r₂ =>
    obtain ⟨s₁, k₁⟩ := expect_spans r₁
    obtain ⟨ts, s₂, d₂⟩ := expr_derives r₂
    exact ⟨_, s₁.trans s₂, .ret k₁ d₂⟩
  | assignLocal r₁ r₂ r₃ r₄ =>
    obtain ⟨s₁, k₁⟩ := expect_spans r₁
    obtain ⟨ts₂, s₂, d₂⟩ := expr_derives r₂
    obtain ⟨s₃, k₃⟩ := expect_spans r₃
    obtain ⟨ts₄, s₄, d₄⟩ := expr_derives r₄
    refine ⟨_, ?_, .assignLocal k₁ d₂ k₃ d₄⟩
    simpa using s₁.trans (s₂.trans (s₃.trans s₄))
  | assign nonempty words r₁ r₂ r₃ =>
    obtain ⟨ts₁, s₁, d₁⟩ := expr_derives r₁
    obtain ⟨s₂, k₂⟩ := expect_spans r₂
    obtain ⟨ts₃, s₃, d₃⟩ := expr_derives r₃
    exact ⟨_, s₁.trans (s₂.trans s₃), .assign d₁ k₂ d₃⟩
  | call nonempty words r₁ before =>
    obtain ⟨ts, s₁, d₁⟩ := expr_derives r₁
    exact ⟨_, s₁, .callStmt (d₁.primary_of_level rfl)⟩
termination_by (c.size, 1)
decreasing_by all_goals decreasing_with omega

theorem elseBlock?_derives {c c' : Cursor} {o : Option Block} (h : (elseBlock? c).Gives o c') :
    ∃ ts, c.Spans ts c' ∧ Derives Eq (.otherwise o) ts := by
  rcases elseBlock?_gives.mp h with ⟨t, c₁, b, read, given, rfl⟩ | ⟨-, rfl, rfl⟩
  · have shorter := read.size_lt
    obtain ⟨s₁, k₁⟩ := expect_spans read
    obtain ⟨ts, s₂, d₂⟩ := block_derives given
    exact ⟨_, s₁.trans s₂, .orElse k₁ d₂⟩
  · exact ⟨[], .refl _, .noElse⟩
termination_by (c.size, 0)
decreasing_by all_goals decreasing_with omega

theorem stmts_derives {c c' : Cursor} {ss : List Stmt} (h : (stmts c).Gives ss c') :
    (∃ ts, c.Spans ts c' ∧ Derives Eq (.stmts ss) ts) ∧ endsBlock c' = true := by
  rcases stmts_gives.mp h with ⟨ends, rfl, rfl⟩ | ⟨-, s, c₁, others, given, more, rfl⟩
  · exact ⟨⟨[], .refl _, .noStmts⟩, ends⟩
  · have shorter := given.size_lt
    obtain ⟨ts, s₁, d₁⟩ := stmt_derives given
    obtain ⟨⟨us, s₂, d₂⟩, ends⟩ := stmts_derives more
    exact ⟨⟨_, s₁.trans s₂, .moreStmts d₁ d₂⟩, ends⟩
termination_by (c.size, 2)
decreasing_by all_goals decreasing_with omega

theorem block_derives {c c' : Cursor} {b : Block} (h : (block c).Gives b c') :
    ∃ ts, c.Spans ts c' ∧ Derives Eq (.block b) ts := by
  obtain ⟨ss, t, given, -, rfl⟩ := block_gives.mp h
  obtain ⟨⟨ts, spans, derived⟩, -⟩ := stmts_derives given
  exact ⟨ts, spans, .block derived⟩
termination_by (c.size, 3)
decreasing_by all_goals decreasing_with omega
end

/-! ### Nesting of operators -/

/-- All operators of a phrase nest as their ranks say, and none is looser than its rule allows. -/
def Phrase.Nested : Phrase → Prop
  | .primary e => e.rank = 0 ∧ e.all Expr.nested = true
  | .power e => e.rank ≤ 1 ∧ e.all Expr.nested = true
  | .signed e => e.rank ≤ 2 ∧ e.all Expr.nested = true
  | .level n e => n ≤ loosest → e.rank ≤ n + 2 ∧ e.all Expr.nested = true
  | .args es => Expr.allOf Expr.nested es = true
  | .step o => ∀ e ∈ o, e.all Expr.nested = true
  | .params _ => True
  | .stmt s => s.all (Stmt.exprsAll Expr.nested) = true
  | .stmts ss => Stmt.allOf (Stmt.exprsAll Expr.nested) ss = true
  | .block b => b.allExprs Expr.nested = true
  | .otherwise o => Block.allElse (Stmt.exprsAll Expr.nested) o = true

theorem Derives.nested {same : Token → Token → Prop} {p : Phrase} {ts : List Token}
    (kinds : ∀ a b, same a b → a.kind = b.kind) (h : Derives same p ts) : p.Nested := by
  induction h with
  | integer | real | yes | no | text | name => exact ⟨rfl, rfl⟩
  | group _ _ _ ih =>
    obtain ⟨-, inner⟩ := ih (Nat.le_refl _)
    exact ⟨rfl, by simp [Expr.all, Expr.nested, inner]⟩
  | call _ _ _ _ ih =>
    simp only [Phrase.Nested] at ih ⊢
    exact ⟨rfl, by simp [Expr.all, Expr.nested, ih]⟩
  | noArgs => rfl
  | lastArg _ ih | lastArgComma _ _ ih =>
    obtain ⟨-, arg⟩ := ih (Nat.le_refl _)
    simp [Phrase.Nested, Expr.allOf, arg]
  | moreArgs _ _ _ ih ih' =>
    obtain ⟨-, arg⟩ := ih (Nat.le_refl _)
    simp only [Phrase.Nested] at ih' ⊢
    rw [Expr.allOf, arg, ih', Bool.and_self]
  | base _ ih => exact ⟨by simp [ih.1], ih.2⟩
  | raised _ eq caret _ ih ih' =>
    have kind := (kinds _ _ eq).trans caret
    refine ⟨by simp [Expr.rank, kind, Kind.rank], ?_⟩
    simp [Expr.all, Expr.nested, kind, ih.1, ih.2, ih'.1, ih'.2]
  | unsigned _ ih => exact ⟨by have := ih.1; omega, ih.2⟩
  | sign eq isSign _ ih =>
    rw [← kinds _ _ eq] at isSign
    exact ⟨by simp [Expr.rank], by simp [Expr.all, Expr.nested, isSign, ih.1, ih.2]⟩
  | operand _ ih => exact fun _ => ih
  | tighter _ ih =>
    intro bound
    obtain ⟨rank, all⟩ := ih (by omega)
    exact ⟨by omega, all⟩
  | @binary n l _ op t r _ line low _ eq rank _ ih ih' =>
    intro bound
    rw [← kinds _ _ eq] at rank
    obtain ⟨left, left'⟩ := ih bound
    obtain ⟨right, right'⟩ := ih' (by omega)
    have notCaret : op.kind ≠ .caret := by
      intro caret
      rw [caret] at rank
      simp [Kind.rank] at rank
    refine ⟨by simp only [Expr.rank]; omega, ?_⟩
    simp only [Expr.all, Expr.nested, beq_eq_false_iff_ne.mpr notCaret, left', right', rank]
    simp
    omega
  | @logical n l _ op t r _ line high _ eq rank _ ih ih' =>
    intro bound
    rw [← kinds _ _ eq] at rank
    obtain ⟨left, left'⟩ := ih bound
    obtain ⟨right, right'⟩ := ih' (by omega)
    refine ⟨by simp only [Expr.rank]; omega, ?_⟩
    simp only [Expr.all, Expr.nested, left', right', rank]
    simp
    omega
  | print _ _ ih | println _ _ ih | ret _ _ ih =>
    obtain ⟨-, value⟩ := ih (Nat.le_refl _)
    simp [Phrase.Nested, Stmt.all, Stmt.exprsAll, Stmt.exprs, value]
  | branch _ _ _ _ _ _ ih ih₁ ih₂ =>
    obtain ⟨-, test⟩ := ih (Nat.le_refl _)
    simp only [Phrase.Nested, Block.allExprs] at ih₁ ih₂ ⊢
    simp [Stmt.all, Stmt.exprsAll, Stmt.exprs, test, ih₁, ih₂]
  | noElse | noStmts => rfl
  | orElse _ _ ih => exact ih
  | loop _ _ _ _ _ ih ih₁ =>
    obtain ⟨-, test⟩ := ih (Nat.le_refl _)
    simp only [Phrase.Nested, Block.allExprs] at ih₁ ⊢
    simp [Stmt.all, Stmt.exprsAll, Stmt.exprs, test, ih₁]
  | count _ _ _ _ _ _ _ _ _ _ ih₁ ih₂ ih₃ ih₄ =>
    obtain ⟨-, start⟩ := ih₁ (Nat.le_refl _)
    obtain ⟨-, stop⟩ := ih₂ (Nat.le_refl _)
    simp only [Phrase.Nested, Block.allExprs] at ih₃ ih₄ ⊢
    simp only [Stmt.all, Stmt.exprsAll, Stmt.exprs, List.all_cons, start, stop, ih₄,
      Bool.true_and, Bool.and_true, List.all_eq_true]
    exact fun e mem => ih₃ e (by simpa using mem)
  | noStep => simp [Phrase.Nested]
  | someStep _ _ ih =>
    obtain ⟨-, step⟩ := ih (Nat.le_refl _)
    simp [Phrase.Nested, step]
  | func _ _ _ _ _ _ _ _ _ ih =>
    simp only [Phrase.Nested, Block.allExprs] at ih ⊢
    simp [Stmt.all, Stmt.exprsAll, Stmt.exprs, ih]
  | noParams | lastParam | lastParamComma | moreParams => trivial
  | assignLocal _ _ _ _ ih ih' | assign _ _ _ ih ih' =>
    obtain ⟨-, target⟩ := ih (Nat.le_refl _)
    obtain ⟨-, value⟩ := ih' (Nat.le_refl _)
    simp [Phrase.Nested, Stmt.all, Stmt.exprsAll, Stmt.exprs, target, value]
  | callStmt _ ih => simp [Phrase.Nested, Stmt.all, Stmt.exprsAll, Stmt.exprs, ih.2]
  | moreStmts _ _ ih ih' =>
    simp only [Phrase.Nested] at ih ih' ⊢
    rw [Stmt.allOf, ih, ih', Bool.and_self]
  | block _ ih => exact ih

/-! ### Endings of printed values -/

/-- All statements of a phrase print nothing or a line break after a value. -/
def Phrase.EndsPlainly : Phrase → Prop
  | .stmt s => s.all Stmt.endsPlainly = true
  | .stmts ss => Stmt.allOf Stmt.endsPlainly ss = true
  | .block b => b.all Stmt.endsPlainly = true
  | .otherwise o => Block.allElse Stmt.endsPlainly o = true
  | _ => True

theorem Derives.endsPlainly {same : Token → Token → Prop} {p : Phrase} {ts : List Token}
    (h : Derives same p ts) : p.EndsPlainly := by
  induction h with
  | print | println | ret | assignLocal | assign | callStmt =>
    simp [Phrase.EndsPlainly, Stmt.all, Stmt.endsPlainly]
  | branch _ _ _ _ _ _ _ ih₁ ih₂ =>
    simp only [Phrase.EndsPlainly] at ih₁ ih₂ ⊢
    simp [Stmt.all, Stmt.endsPlainly, ih₁, ih₂]
  | loop _ _ _ _ _ _ ih | count _ _ _ _ _ _ _ _ _ _ _ _ _ ih | func _ _ _ _ _ _ _ _ _ ih =>
    simp only [Phrase.EndsPlainly] at ih ⊢
    simp [Stmt.all, Stmt.endsPlainly, ih]
  | moreStmts _ _ ih ih' =>
    simp only [Phrase.EndsPlainly] at ih ih' ⊢
    rw [Stmt.allOf, ih, ih', Bool.and_self]
  | noElse | noStmts => rfl
  | orElse _ _ ih | block _ ih => exact ih
  | _ => trivial

/-! ### Programs -/

theorem spans_ofList {tokens ts : List Token} {c : Cursor}
    (spans : (Cursor.ofList tokens).Spans ts c) :
    tokens.take c.position = ts ∧ tokens.drop c.position = c.ahead := by
  have ahead : tokens = ts ++ c.ahead := spans.ahead
  have position : c.position = ts.length := by
    simp [Cursor.position, spans.behind, Cursor.ofList]
  rw [ahead, position]
  exact ⟨List.take_left, List.drop_left⟩

theorem position_of_ended {tokens ts : List Token} {c : Cursor}
    (spans : (Cursor.ofList tokens).Spans ts c) (ended : c.ahead = []) :
    c.position = tokens.length := by
  have length := congrArg List.length spans.ahead
  have behind := congrArg List.length spans.behind
  simp [ended, Cursor.ofList] at length behind
  simp [Cursor.position, length, behind]

/-- A program that was read is written by exactly the tokens before the place where reading stopped,
its operators nest by rank, and reading stopped at the end or before a word that closes a block. -/
theorem program_reads_yield {tokens : List Token} {b : Block} {c : Cursor}
    {shorter : c.size < tokens.length + 1} (parsed : program tokens = .ok b c shorter) :
    Derives Eq (.block b) (tokens.take c.position) ∧ b.allExprs Expr.nested = true ∧
      (c.position = tokens.length ∨
        ∃ t, tokens[c.position]? = some t ∧ (t.kind = .kwElse ∨ t.kind = .kwEnd)) := by
  have given : (block (Cursor.ofList tokens)).Gives b c := ⟨shorter, parsed⟩
  obtain ⟨ts, spans, derived⟩ := block_derives given
  obtain ⟨taken, dropped⟩ := spans_ofList spans
  refine ⟨by rw [taken]; exact derived, derived.nested fun _ _ eq => congrArg _ eq, ?_⟩
  obtain ⟨ss, t, stmts, -, rfl⟩ := block_gives.mp given
  rcases endsBlock_iff.mp (stmts_derives stmts).2 with ended | closes
  · exact .inl (position_of_ended spans ended)
  · right
    have next : ∃ t rest, c.ahead = t :: rest ∧ (t.kind = .kwElse ∨ t.kind = .kwEnd) := by
      rcases closes with closes | closes
      · obtain ⟨t, rest, ahead, kind⟩ := Cursor.nextIs_iff.mp closes
        exact ⟨t, rest, ahead, .inl kind⟩
      · obtain ⟨t, rest, ahead, kind⟩ := Cursor.nextIs_iff.mp closes
        exact ⟨t, rest, ahead, .inr kind⟩
    obtain ⟨t, rest, ahead, kind⟩ := next
    refine ⟨t, ?_, kind⟩
    rw [← List.head?_drop, dropped, ahead, List.head?_cons]

/-- The tokens of `x := -a ^ 2 f(x,) end end`. -/
def powerAndCall : List Token :=
  [⟨.identifier, "x", 1⟩, ⟨.assign, ":=", 1⟩, ⟨.minus, "-", 1⟩, ⟨.identifier, "a", 1⟩,
    ⟨.caret, "^", 1⟩, ⟨.integer, "2", 1⟩, ⟨.identifier, "f", 2⟩, ⟨.lparen, "(", 2⟩,
    ⟨.identifier, "x", 2⟩, ⟨.comma, ",", 2⟩, ⟨.rparen, ")", 2⟩, ⟨.kwEnd, "end", 3⟩,
    ⟨.kwEnd, "end", 4⟩]

/-- A comma more than the tree needs is read, and reading stops before the first `end`. -/
theorem powerAndCall_reads_yield :
    ∃ b c shorter, program powerAndCall = .ok b c shorter ∧ c.position = 11 ∧
      Derives Eq (.block b) (powerAndCall.take 11) ∧ b.allExprs Expr.nested = true := by
  have parsed : program powerAndCall =
      .ok (.mk [.assign (.name "x" 1) (.unary ⟨.minus, "-", 1⟩ (.binary ⟨.caret, "^", 1⟩
          (.name "a" 1) (.integer 2 1) 1) 1) 1, .call "f" [.name "x" 2] 2] 2)
        ⟨(powerAndCall.take 11).reverse, powerAndCall.drop 11⟩ (by decide) := by
    cbv
  obtain ⟨derived, nested, -⟩ := program_reads_yield parsed
  exact ⟨_, _, _, parsed, rfl, derived, nested⟩

end ScriptLang.Parse
