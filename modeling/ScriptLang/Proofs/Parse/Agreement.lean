import ScriptLang.Proofs.Parse.BindingRules
import ScriptLang.Proofs.Parse.Failures
import ScriptLang.Proofs.Token.Segments
import ScriptLang.Proofs.Tree.Everywhere

/-!
Parsing by levels and parsing by binding powers agree on formulas of numbers.

The rule for the first `n` levels reads what the rule for operators above `bound n` reads. A level
is a chain that goes on under a lower bound, so both directions follow the levels: from levels to
powers by joining chains (`level_binding`), from powers to levels by splitting them
(`expr_level`).
-/

namespace ScriptLang

/-- A property of all tokens that are left. -/
def Cursor.All (p : Token → Prop) (c : Cursor) : Prop := ∀ t ∈ c.ahead, p t

theorem Cursor.All.head {p : Token → Prop} {c : Cursor} {t : Token} {rest : List Token}
    (h : c.All p) (ahead : c.ahead = t :: rest) : p t :=
  h t (by simp [ahead])

theorem Cursor.All.of_spans {p : Token → Prop} {c c' : Cursor} {ts : List Token} (h : c.All p)
    (spans : c.Spans ts c') : c'.All p := by
  intro t mem
  exact h t (by simp [spans.ahead, mem])

theorem Cursor.All.past {p : Token → Prop} {c : Cursor} {t : Token} {rest : List Token}
    (h : c.All p) (ahead : c.ahead = t :: rest) : (c.past t rest).All p :=
  h.of_spans (.past ahead)

/-- A minus sign and its operand. -/
def Expr.isNegation : Expr → Bool
  | .unary op _ _ => op.kind == .minus
  | _ => false

/-- No plus sign before an operand. -/
def Expr.notPlus : Expr → Bool
  | .unary op _ _ => op.kind != .plus
  | _ => true

/-- No power of a base to a negation. -/
def Expr.notRaisedToNegation : Expr → Bool
  | .binary op _ right _ => !(op.kind == .caret && right.isNegation)
  | _ => true

theorem Expr.holds_of_all {p : Expr → Bool} {e : Expr} (h : e.all p = true) : p e = true := by
  cases e <;> simp_all [Expr.all]

theorem Expr.all_binary {p : Expr → Bool} {op : Token} {l r : Expr} {line : Line}
    (h : (Expr.binary op l r line).all p = true) : l.all p = true ∧ r.all p = true := by
  simp only [Expr.all, Bool.and_eq_true] at h
  exact ⟨h.1.2, h.2⟩

namespace Parse

open Binding (Weak ReadsFirst powerOf?)

variable {c c' : Cursor} {e l : Expr} {n : Nat}

/-- The kinds of tokens that formulas of numbers are written with. -/
def formulaKinds : List Kind :=
  [.integer, .float, .plus, .minus, .star, .slash, .caret, .lparen, .rparen]

/-- A token of formulas, spelled as its kind asks. -/
def InFormula (t : Token) : Prop := t.Spelled ∧ t.kind ∈ formulaKinds

/-- The operators of the first `n` levels have powers above this bound. -/
def bound : Nat → Int
  | 0 => 3
  | 1 => 2
  | 2 => 1
  | _ => 0

theorem bound_succ_le (n : Nat) : bound (n + 1) ≤ bound n := by
  match n with
  | 0 | 1 | 2 | _ + 3 => simp [bound]

/-! ### From levels to powers -/

/-- An operator of a level binds just not enough for the levels before. -/
theorem power_of_operator {k : Kind} (mem : k ∈ operators n) (formula : k ∈ formulaKinds) :
    powerOf? k = some (bound n) ∧ bound (n + 1) < bound n ∧ n < 5 ∧ k ≠ .caret ∧
      Binding.isOperator k = true := by
  match n with
  | 1 | 2 =>
    simp only [operators, List.mem_cons, List.not_mem_nil, or_false] at mem
    rcases mem with rfl | rfl <;> decide
  | 0 | 3 | 4 | 5 | _ + 6 =>
    simp only [operators, List.mem_cons, List.not_mem_nil, or_false] at mem
    rcases mem with rfl | rfl | rfl | rfl <;> simp [formulaKinds] at formula

theorem levelRest_all {p : Expr → Bool} {c : Cursor} {l : Expr}
    (h : (levelRest n l c).Gives e c') (all : e.all p = true) : l.all p = true := by
  rcases levelRest_gives.mp h with
    ⟨op, rest, right, c₁, ahead, -, given, more⟩ | ⟨-, rfl, rfl⟩
  · have shorter := Cursor.size_past_lt ahead
    have shorter' := given.size_lt
    have all' := levelRest_all more all
    unfold operation at all'
    split at all' <;> simp only [Expr.all, Bool.and_eq_true] at all' <;> exact all'.1.2
  · exact all
termination_by c.size
decreasing_by all_goals decreasing_with omega

/-- Before the operators of a level no operator of the levels before follows. -/
theorem levelRest_weak (h : (levelRest n l c).Gives e c') (formula : c.All InFormula)
    (weak : Weak (bound (n + 1)) c') : Weak (bound n) c := by
  rcases levelRest_gives.mp h with ⟨op, rest, right, c₁, ahead, mem, -⟩ | ⟨-, -, rfl⟩
  · obtain ⟨spelled, kind⟩ := formula.head ahead
    have power := (power_of_operator mem kind).1
    exact (Binding.weak_of_ahead ahead).mpr
      ⟨_, Binding.power?_of_kind spelled power, Int.le_refl _⟩
  · exact weak.mono (bound_succ_le n)

mutual
theorem level_binding {n : Nat} {c c' : Cursor} {e : Expr} (h : (level n c).Gives e c')
    (formula : c.All InFormula) (plain : e.all Expr.notPlus = true)
    (weak : Weak (bound n) c') : (Binding.expr (bound n) c).Gives (some e) c' := by
  cases n with
  | zero => exact unary_binding (level_zero_gives.mp h) formula plain weak
  | succ n =>
    obtain ⟨left, c₁, first, rest⟩ := level_succ_gives.mp h
    have shorter := first.size_lt
    obtain ⟨ts, spans⟩ := (level_accounted _ _).spans first
    have formula' := formula.of_spans spans
    have weak' := levelRest_weak rest formula' weak
    have joined := level_binding first formula (levelRest_all rest plain) weak'
    have more := levelRest_binding rest formula' plain weak
    exact Binding.expr_trans (bound_succ_le n) joined more
termination_by (c.size, n + 3)
decreasing_by all_goals decreasing_with omega

theorem levelRest_binding {n : Nat} {c c' : Cursor} {l e : Expr}
    (h : (levelRest n l c).Gives e c') (formula : c.All InFormula)
    (plain : e.all Expr.notPlus = true) (weak : Weak (bound (n + 1)) c') :
    (Binding.chain (bound (n + 1)) (some l) c).Gives (some e) c' := by
  rcases levelRest_gives.mp h with
    ⟨op, rest, right, c₁, ahead, mem, given, more⟩ | ⟨-, rfl, rfl⟩
  · have shorter := Cursor.size_past_lt ahead
    have shorter' := given.size_lt
    obtain ⟨spelled, kind⟩ := formula.head ahead
    obtain ⟨power, lt, few, notCaret, operator⟩ := power_of_operator mem kind
    have found := Binding.power?_of_kind spelled power
    have asked : Binding.rightPower op (bound n) = bound n := by
      simp [Binding.rightPower, notCaret]
    obtain ⟨ts, spans⟩ := (level_accounted _ _).spans given
    have formula' := (formula.past ahead).of_spans spans
    have whole := levelRest_all more plain
    rw [operation, if_pos few] at more whole
    have weak' := levelRest_weak more formula' weak
    have right' := level_binding given (formula.past ahead) (Expr.all_binary whole).2 weak'
    have more' := levelRest_binding more formula' plain weak
    exact Binding.chain_take ahead operator found lt (by rw [asked]; exact right') more'
  · exact Binding.chain_stop _ weak
termination_by (c.size, 0)
decreasing_by all_goals decreasing_with omega

theorem unary_binding {c c' : Cursor} {e : Expr} (h : (unary c).Gives e c')
    (formula : c.All InFormula) (plain : e.all Expr.notPlus = true) (weak : Weak 3 c') :
    (Binding.expr 3 c).Gives (some e) c' := by
  rcases unary_gives.mp h with ⟨op, rest, operand, ahead, sign, given, rfl⟩ | ⟨-, given⟩
  · have shorter := Cursor.size_past_lt ahead
    have minus : op.kind = .minus := by
      have kind := (formula.head ahead).2
      have notPlus := Expr.holds_of_all plain
      simp only [signs, List.mem_cons, List.not_mem_nil, or_false] at sign
      rcases sign with eq | eq | eq
      · simp [eq, formulaKinds] at kind
      · exact eq
      · simp [Expr.notPlus, eq] at notPlus
    have plain' : operand.all Expr.notPlus = true := by
      simp only [Expr.all, Bool.and_eq_true] at plain
      exact plain.2
    have operand' := unary_binding given (formula.past ahead) plain' weak
    exact Binding.expr_gives.mpr ⟨_, _, .sign ahead minus operand', Binding.chain_stop _ weak⟩
  · exact exponent_binding given formula plain weak
termination_by (c.size, 2)
decreasing_by all_goals decreasing_with omega

theorem exponent_binding {c c' : Cursor} {e : Expr} (h : (exponent c).Gives e c')
    (formula : c.All InFormula) (plain : e.all Expr.notPlus = true) (weak : Weak 3 c') :
    (Binding.expr 3 c).Gives (some e) c' := by
  obtain ⟨left, c₁, first, rest⟩ := exponent_gives.mp h
  rcases exponentRest_gives.mp rest with
    ⟨op, rest', right, c₂, ahead, caret, given, more⟩ | ⟨-, rfl, rfl⟩
  · have shorter := first.size_lt
    have shorter' := Cursor.size_past_lt ahead
    obtain ⟨rfl, rfl⟩ := (exponentRest_stop (exponent_before given)).mp more
    obtain ⟨plainLeft, plainRight⟩ := Expr.all_binary plain
    obtain ⟨ts, spans, -⟩ := primary_derives first
    have formula' := formula.of_spans spans
    have found : Binding.power? op.lexeme = some 4 :=
      Binding.power?_of_kind (formula'.head ahead).1 (by rw [caret]; rfl)
    have asked : Binding.rightPower op 4 = 3 := by simp [Binding.rightPower, caret]
    have read := primary_binding (primary_gives.mp first) formula plainLeft
    have right' := exponent_binding given (formula'.past ahead) plainRight weak
    refine Binding.expr_gives.mpr ⟨left, c₁, read, ?_⟩
    exact Binding.chain_take ahead (by rw [caret]; rfl) found (by decide)
      (by rw [asked]; exact right') (Binding.chain_stop _ weak)
  · have read := primary_binding (primary_gives.mp first) formula plain
    exact Binding.expr_gives.mpr ⟨left, c₁, read, Binding.chain_stop _ weak⟩
termination_by (c.size, 1)
decreasing_by all_goals decreasing_with omega

theorem primary_binding {c c' : Cursor} {e : Expr} (h : ReadsPrimary c e c')
    (formula : c.All InFormula) (plain : e.all Expr.notPlus = true) : ReadsFirst c e c' := by
  cases h with
  | integer ahead kind read => exact .integer ahead kind read
  | real ahead kind read => exact .real ahead kind read
  | group ahead kind given ahead' closes =>
    have shorter := Cursor.size_past_lt ahead
    obtain ⟨ts, spans⟩ := (level_accounted _ _).spans given
    have formula' := (formula.past ahead).of_spans spans
    have found : Binding.power? _ = some 0 :=
      Binding.power?_of_kind (formula'.head ahead').1 (by rw [closes]; rfl)
    have weak : Weak 0 _ := (Binding.weak_of_ahead ahead').mpr ⟨0, found, Int.le_refl _⟩
    simp only [Expr.all, Bool.and_eq_true] at plain
    have inner := level_binding given (formula.past ahead) plain.2 weak
    exact .group ahead kind inner (Cursor.expect_gives.mpr ⟨_, ahead', closes, rfl⟩)
  | yes ahead kind | no ahead kind | text ahead kind | name ahead kind | call ahead kind =>
    have mem := (formula.head ahead).2
    simp [kind, formulaKinds] at mem
termination_by (c.size, 0)
decreasing_by all_goals decreasing_with omega
end

/-! ### From powers to levels -/

theorem chain_all {p : Expr → Bool} {b : Int} {c : Cursor} {l : Expr}
    (h : (Binding.chain b (some l) c).Gives (some e) c') (all : e.all p = true) :
    l.all p = true := by
  rcases Binding.chain_gives.mp h with
    ⟨op, rest, power, right, c₁, ahead, -, -, -, given, more⟩ | ⟨-, rfl, -⟩
  · have shorter := Binding.shorter_of_taken ahead given (Nat.le_refl _)
    exact (Expr.all_binary (chain_all more all)).1
  · exact all
termination_by c.size
decreasing_by all_goals decreasing_with omega

/-- Tokens that bind too little are no operators that bind more. -/
theorem before_of_weak {b : Int} {kinds : List Kind} (weak : Weak b c)
    (spelled : c.All Token.Spelled)
    (strong : ∀ k ∈ kinds, k ≠ .identifier ∧ ∀ power, powerOf? k = some power → b < power) :
    c.Before kinds := by
  cases ahead : c.ahead with
  | nil => exact Cursor.before_of_ended ahead
  | cons t rest =>
    rw [Cursor.before_of_ahead ahead]
    intro mem
    obtain ⟨power, found, le⟩ := (Binding.weak_of_ahead ahead).mp weak
    rcases Binding.kind_of_power? (spelled.head ahead) found with kind | kind
    · have := (strong _ mem).2 _ kind
      omega
    · exact (strong _ mem).1 kind

theorem before_caret_of_weak (weak : Weak 3 c) (spelled : c.All Token.Spelled) :
    c.Before [.caret] := by
  refine before_of_weak weak spelled ?_
  simp [powerOf?]

theorem before_operators_of_weak (weak : Weak (bound (n + 1)) c)
    (spelled : c.All Token.Spelled) : c.Before (operators n) := by
  refine before_of_weak weak spelled ?_
  match n with
  | 0 | 1 | 2 | 3 | 4 | 5 | _ + 6 => simp [operators, powerOf?, bound]

/-- The kind of an operator by its power. -/
theorem kind_of_operator {t : Token} {power : Int} (spelled : t.Spelled)
    (operator : Binding.isOperator t.kind = true) (found : Binding.power? t.lexeme = some power) :
    powerOf? t.kind = some power := by
  rcases Binding.kind_of_power? spelled found with kind | kind
  · exact kind
  · simp [kind, Binding.isOperator] at operator

/-- An operator that binds enough for a level but not for those before is of that level. -/
theorem operator_of_power {k : Kind} {power : Int} (operator : Binding.isOperator k = true)
    (found : powerOf? k = some power) (lt : bound (n + 1) < power) (le : power ≤ bound n) :
    k ∈ operators n ∧ n < 5 ∧ k ≠ .caret ∧ power = bound n := by
  simp only [Binding.isOperator, Bool.or_eq_true, beq_iff_eq] at operator
  match n with
  | 0 | 1 | 2 | _ + 3 =>
    simp only [bound] at lt le
    rcases operator with (((rfl | rfl) | rfl) | rfl) | rfl <;> cases found <;>
      simp_all [operators, bound]

theorem caret_of_power {k : Kind} {power : Int} (found : powerOf? k = some power)
    (lt : 3 < power) : k = .caret ∧ power = 4 := by
  unfold powerOf? at found
  split at found <;> cases found <;> simp_all

theorem ReadsPrimary.before_signs (h : ReadsPrimary c e c') : c.Before signs := by
  cases h with
  | integer ahead kind | real ahead kind | yes ahead kind | no ahead kind | text ahead kind
  | group ahead kind | name ahead kind | call ahead kind =>
    simp [Cursor.before_of_ahead ahead, kind, signs]

mutual
theorem expr_level {n : Nat} {c c' : Cursor} {e : Expr}
    (h : (Binding.expr (bound n) c).Gives (some e) c') (spelled : c.All Token.Spelled)
    (raised : e.all Expr.notRaisedToNegation = true) : (level n c).Gives e c' := by
  cases n with
  | zero => exact level_zero_gives.mpr (expr_unary h spelled raised).1
  | succ n =>
    obtain ⟨m, c₁, first, rest⟩ := Binding.expr_split (bound_succ_le n) h
    have left := expr_level first spelled (chain_all rest raised)
    have shorter := left.size_lt
    obtain ⟨ts, spans⟩ := (level_accounted _ _).spans left
    have more := chain_levelRest rest (spelled.of_spans spans) raised (Binding.expr_weak first)
    exact level_succ_gives.mpr ⟨m, c₁, left, more⟩
termination_by (c.size, n + 3)
decreasing_by all_goals decreasing_with omega

theorem chain_levelRest {n : Nat} {c c' : Cursor} {l e : Expr}
    (h : (Binding.chain (bound (n + 1)) (some l) c).Gives (some e) c')
    (spelled : c.All Token.Spelled) (raised : e.all Expr.notRaisedToNegation = true)
    (weak : Weak (bound n) c) : (levelRest n l c).Gives e c' := by
  rcases Binding.chain_gives.mp h with
    ⟨op, rest, power, right, c₁, ahead, operator, found, lt, given, more⟩ | ⟨weak', rfl, rfl⟩
  · have shorter := Cursor.size_past_lt ahead
    obtain ⟨power', found', le⟩ := (Binding.weak_of_ahead ahead).mp weak
    rw [found] at found'
    cases found'
    have kind := kind_of_operator (spelled.head ahead) operator found
    obtain ⟨mem, few, notCaret, rfl⟩ := operator_of_power operator kind lt le
    have asked : Binding.rightPower op (bound n) = bound n := by
      simp [Binding.rightPower, notCaret]
    rw [asked] at given
    have raised' := (Expr.all_binary (chain_all more raised)).2
    have right' := expr_level given (spelled.past ahead) raised'
    have shorter' := right'.size_lt
    obtain ⟨ts, spans⟩ := (level_accounted _ _).spans right'
    have more' := chain_levelRest more ((spelled.past ahead).of_spans spans) raised
      (Binding.expr_weak given)
    refine levelRest_gives.mpr (.inl ⟨op, rest, right, c₁, ahead, mem, right', ?_⟩)
    rw [operation, if_pos few]
    exact more'
  · exact levelRest_gives.mpr (.inr ⟨before_operators_of_weak weak' spelled, rfl, rfl⟩)
termination_by (c.size, 0)
decreasing_by all_goals decreasing_with omega

/-- Only powers bind more than signs do. The exponent of a power has no sign of its own. -/
theorem expr_unary {c c' : Cursor} {e : Expr} (h : (Binding.expr 3 c).Gives (some e) c')
    (spelled : c.All Token.Spelled) (raised : e.all Expr.notRaisedToNegation = true) :
    (unary c).Gives e c' ∧ (e.isNegation = false → (exponent c).Gives e c') := by
  obtain ⟨l, c₁, read, more⟩ := Binding.expr_gives.mp h
  rcases readsFirst_cases read spelled (chain_all more raised) with
    first | ⟨t, rest, operand, ahead, minus, given, weak, rfl⟩
  · have given := primary_gives.mpr first
    have shorter := given.size_lt
    obtain ⟨ts, spans, -⟩ := primary_derives given
    have spelled' := spelled.of_spans spans
    have power : (exponent c).Gives e c' := by
      refine exponent_gives.mpr ⟨l, c₁, given, exponentRest_gives.mpr ?_⟩
      rcases Binding.chain_gives.mp more with
        ⟨op, rest, power, right, c₂, ahead, operator, found, lt, given', more'⟩ | ⟨weak, rfl, rfl⟩
      · have shorter' := Cursor.size_past_lt ahead
        have kind := kind_of_operator (spelled'.head ahead) operator found
        obtain ⟨caret, rfl⟩ := caret_of_power kind lt
        have asked : Binding.rightPower op 4 = 3 := by simp [Binding.rightPower, caret]
        rw [asked] at given'
        have weak := Binding.expr_weak given'
        obtain ⟨rfl, rfl⟩ := Binding.chain_of_weak weak more'
        have notNegated : right.isNegation = false := by
          simpa [Expr.notRaisedToNegation, caret] using Expr.holds_of_all raised
        have right' := (expr_unary given' (spelled'.past ahead) (Expr.all_binary raised).2).2
          notNegated
        exact .inl ⟨op, rest, right, c₂, ahead, caret, right',
          (exponentRest_stop (exponent_before right')).mpr ⟨rfl, rfl⟩⟩
      · exact .inr ⟨before_caret_of_weak weak spelled', rfl, rfl⟩
    exact ⟨unary_gives.mpr (.inr ⟨first.before_signs, power⟩), fun _ => power⟩
  · obtain ⟨rfl, rfl⟩ := Binding.chain_of_weak weak more
    have sign : t.kind ∈ signs := by simp [minus, signs]
    refine ⟨unary_gives.mpr (.inl ⟨t, rest, operand, ahead, sign, given, rfl⟩), ?_⟩
    simp [Expr.isNegation, minus]
termination_by (c.size, 1)
decreasing_by all_goals decreasing_with omega

theorem readsFirst_cases {c c' : Cursor} {e : Expr} (h : ReadsFirst c e c')
    (spelled : c.All Token.Spelled) (raised : e.all Expr.notRaisedToNegation = true) :
    ReadsPrimary c e c' ∨ ∃ t rest operand, c.ahead = t :: rest ∧ t.kind = .minus ∧
      (unary (c.past t rest)).Gives operand c' ∧ Weak 3 c' ∧ e = .unary t operand t.line := by
  cases h with
  | integer ahead kind read => exact .inl (.integer ahead kind read)
  | real ahead kind read => exact .inl (.real ahead kind read)
  | sign ahead kind given =>
    have shorter := Cursor.size_past_lt ahead
    simp only [Expr.all, Bool.and_eq_true] at raised
    have operand := (expr_unary given (spelled.past ahead) raised.2).1
    exact .inr ⟨_, _, _, ahead, kind, operand, Binding.expr_weak given, rfl⟩
  | group ahead kind given closed =>
    have shorter := Cursor.size_past_lt ahead
    obtain ⟨rest, ahead', closes, rfl⟩ := Cursor.expect_gives.mp closed
    simp only [Expr.all, Bool.and_eq_true] at raised
    have inner := expr_level (n := levels) given (spelled.past ahead) raised.2
    exact .inl (.group ahead kind inner ahead' closes)
termination_by (c.size, 0)
decreasing_by all_goals decreasing_with omega
end

/-! ### Formulas of a source text -/

/-- On a source text that is a formula both ways to parse give the same tree, up to the signs that
only one of them reads: levels take a plus sign before an operand, powers a minus sign before an
exponent. -/
theorem parsers_agree {source : String} {tokens : List Token}
    (lexed : tokenize source = .ok tokens) (formula : ∀ t ∈ tokens, t.kind ∈ formulaKinds)
    {e : Expr} {c : Cursor} (whole : c.position = tokens.length) :
    ((expr (Cursor.ofList tokens)).Gives e c → e.all Expr.notPlus = true →
      (Binding.parse tokens).Gives (some e) c) ∧
    ((Binding.parse tokens).Gives (some e) c → e.all Expr.notRaisedToNegation = true →
      (expr (Cursor.ofList tokens)).Gives e c) := by
  have spelled : (Cursor.ofList tokens).All Token.Spelled := tokens_spelled lexed
  have inFormula : (Cursor.ofList tokens).All InFormula :=
    fun t mem => ⟨spelled t mem, formula t mem⟩
  constructor
  · intro h plain
    obtain ⟨ts, spans, -⟩ := expr_derives h
    have ended : c.ahead = [] := by
      rw [← (spans_ofList spans).2, whole, List.drop_length]
    exact level_binding (n := levels) h inFormula plain (Binding.weak_of_ended ended)
  · intro h raised
    exact expr_level (n := levels) h spelled raised

/-- The tree of `-2^3*(4-1)`. -/
def negatedPower : Expr :=
  .binary ⟨.star, "*", 1⟩
    (.unary ⟨.minus, "-", 1⟩ (.binary ⟨.caret, "^", 1⟩ (.integer 2 1) (.integer 3 1) 1) 1)
    (.group (.binary ⟨.minus, "-", 1⟩ (.integer 4 1) (.integer 1 1) 1) 1) 1

theorem negatedPower_agrees : ∃ tokens c, tokenize "-2^3*(4-1)" = .ok tokens ∧
    (∀ t ∈ tokens, t.kind ∈ formulaKinds) ∧ c.position = tokens.length ∧
    negatedPower.all Expr.notPlus = true ∧
    negatedPower.all Expr.notRaisedToNegation = true ∧
    (expr (Cursor.ofList tokens)).Gives negatedPower c ∧
    (Binding.parse tokens).Gives (some negatedPower) c := by
  have lexed : tokenize "-2^3*(4-1)" = .ok [⟨.minus, "-", 1⟩, ⟨.integer, "2", 1⟩,
      ⟨.caret, "^", 1⟩, ⟨.integer, "3", 1⟩, ⟨.star, "*", 1⟩, ⟨.lparen, "(", 1⟩,
      ⟨.integer, "4", 1⟩, ⟨.minus, "-", 1⟩, ⟨.integer, "1", 1⟩, ⟨.rparen, ")", 1⟩] := by
    cbv
  generalize tokens : [_, _, _, _, _, _, _, _, _, _] = ts at lexed
  have formula : ∀ t ∈ ts, t.kind ∈ formulaKinds := by subst tokens; decide
  have parsed : (expr (Cursor.ofList ts)).Gives negatedPower ⟨ts.reverse, []⟩ := by
    subst tokens
    exact ⟨by decide, by cbv⟩
  have whole : (⟨ts.reverse, []⟩ : Cursor).position = ts.length := by simp [Cursor.position]
  have agree := parsers_agree lexed formula whole (e := negatedPower)
  have plain : negatedPower.all Expr.notPlus = true := by decide
  have raised : negatedPower.all Expr.notRaisedToNegation = true := by decide
  have bound := agree.1 parsed plain
  exact ⟨ts, _, lexed, formula, whole, plain, raised, agree.2 bound raised, bound⟩

end Parse

end ScriptLang
