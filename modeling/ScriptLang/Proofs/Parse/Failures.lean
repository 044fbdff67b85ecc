import ScriptLang.Proofs.Parse.Sound
import ScriptLang.Report

/-!
Why parsing fails.

Most failures of the parser are reports about a line (`ParseError.Reported`). The others are listed
by `Unreported`, each with what stands at the place where parsing stopped: there are no tokens, a
numeral cannot be read, an expression that is no call stands as a statement, or the counter of a
loop is not a name. No other failure arises, whatever the tokens are (`program_accounted`).
-/

namespace ScriptLang

/-- The failure is a report about a line. -/
def ParseError.Reported (e : ParseError) : Prop :=
  ∃ line text, e.failure = .report (.atLine line text)

namespace Parse

/-- A statement may start behind these tokens: they are whole statements, or the last of them opens
a block. -/
inductive Opens : List Token → Prop where
  | start : Opens []
  | next {before s ts} : Opens before → Derives Eq (.stmt s) ts → Opens (before ++ ts)
  | branch {before t e ts t'} : Opens before → t.kind = .kwIf → Derives Eq (.level loosest e) ts →
      t'.kind = .kwThen → Opens (before ++ (t :: ts ++ [t']))
  | otherwise {before t e ts t' ss ts₁ t₁} : Opens before → t.kind = .kwIf →
      Derives Eq (.level loosest e) ts → t'.kind = .kwThen → Derives Eq (.block ss) ts₁ →
      t₁.kind = .kwElse → Opens (before ++ (t :: ts ++ t' :: ts₁ ++ [t₁]))
  | loop {before t e ts t'} : Opens before → t.kind = .kwWhile → Derives Eq (.level loosest e) ts →
      t'.kind = .kwDo → Opens (before ++ (t :: ts ++ [t']))
  | count {before t e ts sign start ts₂ comma stop ts₃ step ts₄ t'} : Opens before →
      t.kind = .kwFor → Derives Eq (.primary e) ts → sign.kind = .assign →
      Derives Eq (.level loosest start) ts₂ → comma.kind = .comma →
      Derives Eq (.level loosest stop) ts₃ → Derives Eq (.step step) ts₄ → t'.kind = .kwDo →
      Opens (before ++ (t :: ts ++ sign :: ts₂ ++ comma :: ts₃ ++ ts₄ ++ [t']))
  | func {before t name t₂ ps ts t₃} : Opens before → t.kind = .kwFunc →
      name.kind = .identifier → t₂.kind = .lparen → Derives Eq (.params ps) ts →
      t₃.kind = .rparen → Opens (before ++ (t :: name :: t₂ :: ts ++ [t₃]))

/-- Parsing stops at a place without a report. -/
inductive Unreported : ParseError → Cursor → Prop where
  /-- There are no tokens. -/
  | noToken : Unreported .noToken ⟨[], []⟩
  /-- The token read last is a numeral that cannot be read. -/
  | numeral {t behind ahead cause} :
      t.kind = .integer ∧ Number.readWhole t.lexeme = .error cause ∨
        t.kind = .float ∧ Number.readReal t.lexeme = .error cause →
      Unreported (.numeral cause) ⟨t :: behind, ahead⟩
  /-- The tokens read last are an expression that is no call where a statement starts, and no
  assignment follows. -/
  | notCall {c c' : Cursor} {e ts} : Opens c.behind.reverse → c.Spans ts c' →
      Derives Eq (.level loosest e) ts → (∀ f args line, e ≠ .call f args line) →
      c'.Before [.assign] → Unreported (.notCall e) c'
  /-- The tokens read last are a statement that starts with `for`, an operand that is not a name,
  and `:=`. -/
  | notName {c c' : Cursor} {word sign : Token} {e ts us} : Opens c.behind.reverse →
      c.Spans (word :: (ts ++ sign :: us)) c' → word.kind = .kwFor →
      Derives Eq (.primary e) ts → sign.kind = .assign → e.isName = false →
      Unreported (.notName e) c'

/-- A rule that starts at `c` goes forward, and its failure is reported or known. -/
def Accounted {α : Type} {n : Nat} (c : Cursor) : Parsed α n → Prop
  | .ok _ c' _ => ∃ ts, c.Spans ts c'
  | .error e c' => (∃ ts, c.Spans ts c') ∧ (e.Reported ∨ Unreported e c')

namespace Accounted

variable {α β : Type} {m n : Nat} {c c₁ : Cursor} {r : Parsed α m}

theorem spans (h : Accounted c r) {a : α} (given : r.Gives a c₁) : ∃ ts, c.Spans ts c₁ := by
  obtain ⟨shorter, rfl⟩ := given
  exact h

theorem weaken (h : Accounted c r) (le : m ≤ n) : Accounted c (r.weaken le) := by
  cases r <;> exact h

theorem map (h : Accounted c r) (f : α → β) : Accounted c (r.map f) := by
  cases r <;> exact h

/-- A rule that starts later is accounted for from the earlier place. -/
theorem of_spans {ts : List Token} (h : Accounted c₁ r) (spans : c.Spans ts c₁) :
    Accounted c r := by
  cases r with
  | ok a c' shorter =>
    obtain ⟨us, more⟩ := h
    exact ⟨_, spans.trans more⟩
  | error e c' =>
    obtain ⟨⟨us, more⟩, why⟩ := h
    exact ⟨⟨_, spans.trans more⟩, why⟩

theorem bind {f : α → (c : Cursor) → c.size < m → Parsed β n} (h : Accounted c r)
    (h' : ∀ a c₁ (given : r.Gives a c₁), Accounted c₁ (f a c₁ given.size_lt)) :
    Accounted c (r.bind f) := by
  cases r with
  | ok a c₁ shorter =>
    obtain ⟨ts, first⟩ := h
    exact (h' a c₁ ⟨shorter, rfl⟩).of_spans first
  | error e c₁ => exact h

end Accounted

theorem accounted_ok {α : Type} {n : Nat} {c : Cursor} {a : α} {shorter : c.size < n} :
    Accounted c (.ok a c shorter) :=
  ⟨[], .refl c⟩

theorem accounted_past {α : Type} {n : Nat} {c : Cursor} {t : Token} {rest : List Token} {a : α}
    {shorter : (c.past t rest).size < n} (ahead : c.ahead = t :: rest) :
    Accounted c (.ok a (c.past t rest) shorter) :=
  ⟨[t], .past ahead⟩

theorem accounted_report {α : Type} {n : Nat} {c : Cursor} {e : ParseError} (h : e.Reported) :
    Accounted c (.error e c : Parsed α n) :=
  ⟨⟨[], .refl c⟩, .inl h⟩

theorem accounted_unreported {α : Type} {n : Nat} {c : Cursor} {e : ParseError}
    (h : Unreported e c) : Accounted c (.error e c : Parsed α n) :=
  ⟨⟨[], .refl c⟩, .inr h⟩

theorem previous?_eq_none {c : Cursor} (h : c.previous? = none) : c = ⟨[], []⟩ := by
  obtain ⟨behind, ahead⟩ := c
  cases behind with
  | nil =>
    have none : ahead.getLast? = none := h
    rw [List.getLast?_eq_none_iff.mp none]
  | cons t before => cases h

theorem expect_accounted (c : Cursor) (k : Kind) : Accounted c (c.expect k) := by
  rw [Cursor.expect]
  split
  · split
    · rename_i none
      rw [previous?_eq_none none]
      exact accounted_unreported .noToken
    · exact accounted_report ⟨_, _, rfl⟩
  · split
    · exact accounted_past ‹_›
    · exact accounted_report ⟨_, _, rfl⟩

/-! ### Expressions -/

mutual
theorem level_accounted (n : Nat) (c : Cursor) : Accounted c (level n c) := by
  cases n with
  | zero =>
    rw [level]
    exact unary_accounted c
  | succ n =>
    rw [level]
    refine (level_accounted n c).bind fun left c₁ given => ?_
    have shorter := given.size_lt
    exact (levelRest_accounted n left c₁).weaken _
termination_by (c.size, n + 3)
decreasing_by all_goals decreasing_with omega

theorem levelRest_accounted (n : Nat) (left : Expr) (c : Cursor) :
    Accounted c (levelRest n left c) := by
  rw [levelRest]
  split
  · exact accounted_ok
  · rename_i op rest ahead
    have lt := Cursor.size_past_lt ahead
    split
    · refine ((level_accounted n (c.past op rest)).of_spans (.past ahead)).bind ?_
      intro right c₁ given
      have shorter := given.size_lt
      exact (levelRest_accounted n _ c₁).weaken _
    · exact accounted_ok
termination_by (c.size, 0)
decreasing_by all_goals decreasing_with omega

theorem unary_accounted (c : Cursor) : Accounted c (unary c) := by
  rw [unary]
  split
  · exact exponent_accounted c
  · rename_i op rest ahead
    have lt := Cursor.size_past_lt ahead
    split
    · refine ((unary_accounted (c.past op rest)).of_spans (.past ahead)).bind ?_
      exact fun operand c₁ given => accounted_ok
    · exact exponent_accounted c
termination_by (c.size, 2)
decreasing_by all_goals decreasing_with omega

theorem exponent_accounted (c : Cursor) : Accounted c (exponent c) := by
  rw [exponent]
  refine (primary_accounted c).bind fun left c₁ given => ?_
  have shorter := given.size_lt
  exact (exponentRest_accounted left c₁).weaken _
termination_by (c.size, 1)
decreasing_by all_goals decreasing_with omega

theorem exponentRest_accounted (left : Expr) (c : Cursor) : Accounted c (exponentRest left c) := by
  rw [exponentRest]
  split
  · exact accounted_ok
  · rename_i op rest ahead
    have lt := Cursor.size_past_lt ahead
    split
    · refine ((exponent_accounted (c.past op rest)).of_spans (.past ahead)).bind ?_
      intro right c₁ given
      have shorter := given.size_lt
      exact (exponentRest_accounted _ c₁).weaken _
    · exact accounted_ok
termination_by (c.size, 0)
decreasing_by all_goals decreasing_with omega

theorem primary_accounted (c : Cursor) : Accounted c (primary c) := by
  rw [primary]
  split
  · exact (expect_accounted c _).map _
  · rename_i t rest ahead
    have lt := Cursor.size_past_lt ahead
    split
    · rename_i kind
      split
      · exact accounted_past ahead
      · rename_i cause unread
        exact (accounted_unreported (.numeral (.inl ⟨kind, unread⟩))).of_spans (.past ahead)
    · rename_i kind
      split
      · exact accounted_past ahead
      · rename_i cause unread
        exact (accounted_unreported (.numeral (.inr ⟨kind, unread⟩))).of_spans (.past ahead)
    · exact accounted_past ahead
    · exact accounted_past ahead
    · exact accounted_past ahead
    · refine ((level_accounted levels (c.past t rest)).of_spans (.past ahead)).bind ?_
      intro inner c₁ given
      split
      · exact accounted_report ⟨_, _, rfl⟩
      · split
        · exact accounted_past ‹_›
        · exact accounted_report ⟨_, _, rfl⟩
    · split
      · exact accounted_past ahead
      · rename_i paren rest' ahead'
        have lt' := Cursor.size_past_lt ahead'
        split
        · refine ((args_accounted _).of_spans ((Cursor.Spans.past ahead).trans (.past ahead'))).bind
            fun values c₁ given => ?_
          exact (expect_accounted c₁ _).bind fun close c₂ given => accounted_ok
        · exact accounted_past ahead
    · exact accounted_report ⟨_, _, rfl⟩
termination_by (c.size, 0)
decreasing_by all_goals decreasing_with omega

theorem args_accounted (c : Cursor) : Accounted c (args c) := by
  rw [args]
  split
  · exact accounted_ok
  · refine (level_accounted levels c).bind fun value c₁ given => ?_
    have shorter := given.size_lt
    split
    · exact accounted_ok
    · refine (expect_accounted c₁ _).bind fun comma c₂ given' => ?_
      have shorter' := given'.size_lt
      exact ((args_accounted c₂).map _).weaken _
termination_by (c.size, levels + 4)
decreasing_by all_goals decreasing_with omega
end

theorem expr_accounted (c : Cursor) : Accounted c (expr c) := level_accounted levels c

/-! ### Statements -/

theorem params_accounted (count : Nat) (c : Cursor) : Accounted c (params count c) := by
  rw [params]
  split
  · exact accounted_ok
  · refine (expect_accounted c _).bind fun t c₁ given => ?_
    have shorter := given.size_lt
    split
    · exact accounted_report ⟨_, _, rfl⟩
    · split
      · exact accounted_ok
      · refine (expect_accounted c₁ _).bind fun comma c₂ given' => ?_
        have shorter' := given'.size_lt
        exact ((params_accounted (count + 1) c₂).map _).weaken _
termination_by c.size
decreasing_by all_goals decreasing_with omega

theorem exprAfter?_accounted (k : Kind) (c : Cursor) : Accounted c (exprAfter? k c) := by
  rw [exprAfter?]
  split
  · exact accounted_ok
  · rename_i t rest ahead
    split
    · exact (((expr_accounted _).of_spans (.past ahead)).map _).weaken _
    · exact accounted_ok

theorem printRest_accounted (ending : Datum) (c : Cursor) : Accounted c (printRest ending c) :=
  (expr_accounted c).bind fun _ _ _ => accounted_ok

theorem retStmt_accounted (c : Cursor) : Accounted c (retStmt c) :=
  (expect_accounted c _).bind fun _ c₁ _ => (expr_accounted c₁).bind fun _ _ _ => accounted_ok

theorem localStmt_accounted (c : Cursor) : Accounted c (localStmt c) :=
  (expect_accounted c _).bind fun _ c₁ _ => (expr_accounted c₁).bind fun _ c₂ _ =>
    (expect_accounted c₂ _).bind fun _ c₃ _ => (expr_accounted c₃).bind fun _ _ _ => accounted_ok

theorem Opens.after {c c' : Cursor} {ts : List Token} (h : Opens (c.behind.reverse ++ ts))
    (spans : c.Spans ts c') : Opens c'.behind.reverse := by
  rwa [spans.behind, List.reverse_append, List.reverse_reverse]

/-- An expression where a statement starts is followed by an assignment sign or is a call. -/
theorem plainStmt_accounted (c : Cursor) (opens : Opens c.behind.reverse) :
    Accounted c (plainStmt c) := by
  rw [plainStmt]
  refine (expr_accounted c).bind fun left c₁ given => ?_
  refine (exprAfter?_accounted _ c₁).bind fun value c₂ given' => ?_
  cases value with
  | some value => exact accounted_ok
  | none =>
    rcases exprAfter?_gives.mp given' with ⟨_, _, _, _, _, eq⟩ | ⟨before, -, rfl⟩
    · cases eq
    · obtain ⟨ts, spans, derived⟩ := expr_derives given
      cases left with
      | call => exact accounted_ok
      | _ =>
        refine accounted_unreported (.notCall opens spans derived ?_ before)
        rintro _ _ _ ⟨⟩

mutual
theorem stmt_accounted (c : Cursor) (opens : Opens c.behind.reverse) (nonempty : c.ahead ≠ []) :
    Accounted c (stmt c) := by
  rw [stmt]
  split
  · exact absurd ‹_› nonempty
  · rename_i t rest ahead
    split
    · exact ((printRest_accounted _ _).of_spans (.past ahead)).weaken _
    · exact ((printRest_accounted _ _).of_spans (.past ahead)).weaken _
    · exact branchStmt_accounted c opens
    · exact loopStmt_accounted c opens
    · exact countStmt_accounted c opens
    · exact funcStmt_accounted c opens
    · exact retStmt_accounted c
    · exact localStmt_accounted c
    · exact plainStmt_accounted c opens
termination_by (c.size, 1)
decreasing_by all_goals decreasing_with omega

theorem branchStmt_accounted (c : Cursor) (opens : Opens c.behind.reverse) :
    Accounted c (branchStmt c) := by
  rw [branchStmt]
  refine (expect_accounted c _).bind fun _ c₁ r₁ => (expr_accounted c₁).bind fun _ c₂ r₂ =>
    (expect_accounted c₂ _).bind fun _ c₃ r₃ => ?_
  have l₁ := r₁.size_lt
  have l₂ := r₂.size_lt
  have l₃ := r₃.size_lt
  obtain ⟨s₁, k₁⟩ := expect_spans r₁
  obtain ⟨ts, s₂, derived⟩ := expr_derives r₂
  obtain ⟨s₃, k₃⟩ := expect_spans r₃
  have spans := s₁.trans (s₂.trans s₃)
  refine (block_accounted c₃ ((opens.branch k₁ derived k₃).after spans)).bind fun _ c₄ r₄ => ?_
  have l₄ := r₄.size_lt
  obtain ⟨ts', s₄, derived'⟩ := block_derives r₄
  refine (elseBlock?_accounted c₄ fun t kind => ?_).bind fun _ c₅ _ =>
    (expect_accounted c₅ _).bind fun _ _ _ => accounted_ok
  have whole := opens.otherwise k₁ derived k₃ derived' kind
  rw [List.reverse_cons, (spans.trans s₄).behind]
  simpa using whole
termination_by (c.size, 0)
decreasing_by all_goals decreasing_with omega

theorem elseBlock?_accounted (c : Cursor)
    (opens : ∀ t : Token, t.kind = .kwElse → Opens (t :: c.behind).reverse) :
    Accounted c (elseBlock? c) := by
  rw [elseBlock?]
  split
  · exact accounted_ok
  · rename_i t rest ahead
    have lt := Cursor.size_past_lt ahead
    split
    · rename_i kind
      exact (((block_accounted _ (opens t (eq_of_beq kind))).of_spans (.past ahead)).map _).weaken _
    · exact accounted_ok
termination_by (c.size, 0)
decreasing_by all_goals decreasing_with omega

theorem loopStmt_accounted (c : Cursor) (opens : Opens c.behind.reverse) :
    Accounted c (loopStmt c) := by
  rw [loopStmt]
  refine (expect_accounted c _).bind fun _ c₁ r₁ => (expr_accounted c₁).bind fun _ c₂ r₂ =>
    (expect_accounted c₂ _).bind fun _ c₃ r₃ => ?_
  have l₁ := r₁.size_lt
  have l₂ := r₂.size_lt
  have l₃ := r₃.size_lt
  obtain ⟨s₁, k₁⟩ := expect_spans r₁
  obtain ⟨ts, s₂, derived⟩ := expr_derives r₂
  obtain ⟨s₃, k₃⟩ := expect_spans r₃
  have inside := (opens.loop k₁ derived k₃).after (s₁.trans (s₂.trans s₃))
  exact (block_accounted c₃ inside).bind fun _ c₄ _ =>
    (expect_accounted c₄ _).bind fun _ _ _ => accounted_ok
termination_by (c.size, 0)
decreasing_by all_goals decreasing_with omega

/-- That the counter is a name is checked when the whole loop has been read. -/
theorem countStmt_accounted (c : Cursor) (opens : Opens c.behind.reverse) :
    Accounted c (countStmt c) := by
  rw [countStmt]
  refine (expect_accounted c _).bind fun word c₁ r₁ => (primary_accounted c₁).bind fun e c₂ r₂ =>
    (expect_accounted c₂ _).bind fun sign c₃ r₃ => (expr_accounted c₃).bind fun start c₄ r₄ =>
    (expect_accounted c₄ _).bind fun _ c₅ r₅ => (expr_accounted c₅).bind fun stop c₆ r₆ =>
    (exprAfter?_accounted _ c₆).bind fun step c₇ r₇ =>
    (expect_accounted c₇ _).bind fun _ c₈ r₈ => ?_
  have l₁ := r₁.size_lt
  have l₂ := r₂.size_lt
  have l₃ := r₃.size_lt
  have l₄ := r₄.size_lt
  have l₅ := r₅.size_lt
  have l₆ := r₆.size_lt
  have l₇ := r₇.size_lt
  have l₈ := r₈.size_lt
  obtain ⟨s₁, k₁⟩ := expect_spans r₁
  obtain ⟨ts, s₂, derived⟩ := primary_derives r₂
  obtain ⟨s₃, k₃⟩ := expect_spans r₃
  obtain ⟨_, s₄, d₄⟩ := expr_derives r₄
  obtain ⟨s₅, k₅⟩ := expect_spans r₅
  obtain ⟨_, s₆, d₆⟩ := expr_derives r₆
  obtain ⟨_, s₇, d₇⟩ := exprAfter?_derives r₇
  obtain ⟨s₈, k₈⟩ := expect_spans r₈
  have opens' : Opens c₈.behind.reverse := by
    refine Opens.after ?_
      (s₁.trans (s₂.trans (s₃.trans (s₄.trans (s₅.trans (s₆.trans (s₇.trans s₈)))))))
    simpa using opens.count k₁ derived k₃ d₄ k₅ d₆ d₇ k₈
  have inside := block_accounted c₈ opens'
  refine inside.bind fun body c₉ r₉ => (expect_accounted c₉ _).bind fun close c₁₀ r₁₀ => ?_
  obtain ⟨_, s₉⟩ := inside.spans r₉
  obtain ⟨s₁₀, -⟩ := expect_spans r₁₀
  have rest := s₄.trans (s₅.trans (s₆.trans (s₇.trans (s₈.trans (s₉.trans s₁₀)))))
  have spans := s₁.trans (s₂.trans (s₃.trans rest))
  cases e with
  | name => exact accounted_ok
  | _ => exact accounted_unreported (.notName opens spans k₁ derived k₃ rfl)
termination_by (c.size, 0)
decreasing_by all_goals decreasing_with omega

theorem funcStmt_accounted (c : Cursor) (opens : Opens c.behind.reverse) :
    Accounted c (funcStmt c) := by
  rw [funcStmt]
  refine (expect_accounted c _).bind fun _ c₁ r₁ => (expect_accounted c₁ _).bind fun _ c₂ r₂ =>
    (expect_accounted c₂ _).bind fun _ c₃ r₃ => (params_accounted 0 c₃).bind fun _ c₄ r₄ =>
    (expect_accounted c₄ _).bind fun _ c₅ r₅ => ?_
  have l₁ := r₁.size_lt
  have l₂ := r₂.size_lt
  have l₃ := r₃.size_lt
  have l₄ := r₄.size_lt
  have l₅ := r₅.size_lt
  obtain ⟨s₁, k₁⟩ := expect_spans r₁
  obtain ⟨s₂, k₂⟩ := expect_spans r₂
  obtain ⟨s₃, k₃⟩ := expect_spans r₃
  obtain ⟨ts, s₄, d₄, -⟩ := params_derives r₄ (Nat.zero_le _)
  obtain ⟨s₅, k₅⟩ := expect_spans r₅
  have inside := (opens.func k₁ k₂ k₃ d₄ k₅).after (s₁.trans (s₂.trans (s₃.trans (s₄.trans s₅))))
  exact (block_accounted c₅ inside).bind fun _ c₆ _ =>
    (expect_accounted c₆ _).bind fun _ _ _ => accounted_ok
termination_by (c.size, 0)
decreasing_by all_goals decreasing_with omega

theorem stmts_accounted (c : Cursor) (opens : Opens c.behind.reverse) :
    Accounted c (stmts c) := by
  rw [stmts]
  split
  · exact accounted_ok
  · rename_i goesOn
    have nonempty : c.ahead ≠ [] := fun ended => goesOn (endsBlock_iff.mpr (.inl ended))
    refine (stmt_accounted c opens nonempty).bind fun s c₁ given => ?_
    have shorter := given.size_lt
    obtain ⟨ts, spans, derived⟩ := stmt_derives given
    exact ((stmts_accounted c₁ ((opens.next derived).after spans)).map _).weaken _
termination_by (c.size, 2)
decreasing_by all_goals decreasing_with omega

theorem block_accounted (c : Cursor) (opens : Opens c.behind.reverse) :
    Accounted c (block c) := by
  rw [block]
  refine (stmts_accounted c opens).bind fun ss c₁ given => ?_
  split
  · rename_i none
    rw [previous?_eq_none none]
    exact accounted_unreported .noToken
  · exact accounted_ok
termination_by (c.size, 3)
decreasing_by all_goals decreasing_with omega
end

/-- A program that cannot be read is reported, or one of the known reasons holds at the place where
reading stopped. -/
theorem program_accounted (tokens : List Token) :
    Accounted (Cursor.ofList tokens) (program tokens) :=
  block_accounted _ .start

end Parse

end ScriptLang
