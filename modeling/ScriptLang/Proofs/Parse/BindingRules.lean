import ScriptLang.Parse.Binding
import ScriptLang.Proofs.Parse.Rules
import ScriptLang.Proofs.Token.Spelling

/-!
Parsing by binding powers as inference rules.

An operand is followed by operators whose power exceeds a bound; each takes its right operand under
a bound of its own. The rules speak of expressions that are there: once an operand is missing, none
is given (`chain_gives_none`). The powers belong to lexemes; for tokens of a source text they
belong to kinds (`power?_of_kind`, `kind_of_power?`).
-/

namespace ScriptLang.Parse.Binding

variable {c c' : Cursor} {e l : Expr} {b : Int} {r : Operand}

/-! ### Operands -/

/-- The forms of an operand. -/
inductive ReadsFirst (c : Cursor) : Expr → Cursor → Prop where
  | group {t rest inner c₁ close c₂} : c.ahead = t :: rest → t.kind = .lparen →
      (expr 0 (c.past t rest)).Gives (some inner) c₁ → (c₁.expect .rparen).Gives close c₂ →
      ReadsFirst c (.group inner close.line) c₂
  | sign {t rest operand c₁} : c.ahead = t :: rest → t.kind = .minus →
      (expr signPower (c.past t rest)).Gives (some operand) c₁ →
      ReadsFirst c (.unary t operand t.line) c₁
  | integer {t rest} {n : Int} : c.ahead = t :: rest → t.kind = .integer →
      Number.readWhole t.lexeme = .ok n → ReadsFirst c (.integer n t.line) (c.past t rest)
  | real {t rest} {x : Float} : c.ahead = t :: rest → t.kind = .float →
      Number.readReal t.lexeme = .ok x → ReadsFirst c (.real x t.line) (c.past t rest)

theorem readsFirst_of_gives (h : (first c).Gives (some e) c') : ReadsFirst c e c' := by
  rw [first] at h
  split at h
  · simp at h
  · rename_i t rest ahead
    split at h
    · rename_i kind
      obtain ⟨inner, c₁, given, more⟩ := Parsed.bind_gives.mp h
      obtain ⟨close, c₂, closed, last⟩ := Parsed.bind_gives.mp more
      split at last
      · obtain ⟨eq, rfl⟩ := Parsed.ok_gives.mp last
        cases eq
        exact .group ahead kind given closed
      · simp at last
    · rename_i kind
      obtain ⟨operand, c₁, given, last⟩ := Parsed.bind_gives.mp h
      split at last
      · obtain ⟨eq, rfl⟩ := Parsed.ok_gives.mp last
        cases eq
        exact .sign ahead kind given
      · simp at last
    · rw [number?] at h
      split at h
      · simp at h
      · rename_i t' rest' ahead'
        rw [ahead] at ahead'
        cases ahead'
        split at h
        · rename_i kind
          split at h
          · rename_i read
            obtain ⟨eq, rfl⟩ := Parsed.ok_gives.mp h
            cases eq
            exact .integer ahead kind read
          · simp at h
        · rename_i kind
          split at h
          · rename_i read
            obtain ⟨eq, rfl⟩ := Parsed.ok_gives.mp h
            cases eq
            exact .real ahead kind read
          · simp at h
        · simp at h

theorem first_gives_of_reads (h : ReadsFirst c e c') : (first c).Gives (some e) c' := by
  have opened : ∀ t rest, c.ahead = t :: rest → ∀ t' rest', c.ahead = t' :: rest' →
      t = t' ∧ rest = rest' := by
    intro t rest h t' rest' h'
    rw [h] at h'
    exact List.cons.inj h'
  rw [first]
  cases h with
  | group ahead kind given closed =>
    split
    · simp_all
    · obtain ⟨rfl, rfl⟩ := opened _ _ ahead _ _ ‹_›
      simp only [kind, Parsed.bind_gives]
      exact ⟨_, _, given, _, _, closed, by simp⟩
  | sign ahead kind given =>
    split
    · simp_all
    · obtain ⟨rfl, rfl⟩ := opened _ _ ahead _ _ ‹_›
      simp only [kind, Parsed.bind_gives]
      exact ⟨_, _, given, by simp⟩
  | integer ahead kind read =>
    split
    · simp_all
    · obtain ⟨rfl, rfl⟩ := opened _ _ ahead _ _ ‹_›
      simp only [kind, number?]
      split
      · simp_all
      · obtain ⟨rfl, rfl⟩ := opened _ _ ahead _ _ ‹_›
        simp [kind, read]
  | real ahead kind read =>
    split
    · simp_all
    · obtain ⟨rfl, rfl⟩ := opened _ _ ahead _ _ ‹_›
      simp only [kind, number?]
      split
      · simp_all
      · obtain ⟨rfl, rfl⟩ := opened _ _ ahead _ _ ‹_›
        simp [kind, read]

theorem first_gives : (first c).Gives (some e) c' ↔ ReadsFirst c e c' :=
  ⟨readsFirst_of_gives, first_gives_of_reads⟩

/-! ### Operators -/

theorem next_gives {left : Operand} : (next left c).Gives (some e) c' ↔
    ∃ op rest power l r, c.ahead = op :: rest ∧ isOperator op.kind = true ∧
      power? op.lexeme = some power ∧ left = some l ∧
      (expr (rightPower op power) (c.past op rest)).Gives (some r) c' ∧
      Expr.binary op l r op.line = e := by
  rw [next]
  constructor
  · intro h
    split at h
    · simp at h
    · rename_i op rest ahead
      split at h
      · rename_i operator
        split at h
        · simp at h
        · rename_i power found
          obtain ⟨right, c₁, given, last⟩ := Parsed.bind_gives.mp h
          split at last
          · obtain ⟨eq, rfl⟩ := Parsed.ok_gives.mp last
            cases eq
            exact ⟨op, rest, power, _, _, ahead, operator, found, rfl, given, rfl⟩
          · simp at last
      · simp at h
  · rintro ⟨op, rest, power, l, r, ahead, operator, found, rfl, given, rfl⟩
    split
    · simp_all
    · rename_i ahead'
      rw [ahead] at ahead'
      cases ahead'
      simp only [operator, if_true, found, Parsed.bind_gives]
      exact ⟨some r, c', given, by simp⟩

/-- What is no operator is not read. -/
theorem next_gives_none {left : Operand} (h : (next left c).Gives none c') : c' = c := by
  rw [next] at h
  split at h
  · exact (Parsed.ok_gives.mp h).2.symm
  · split at h
    · split at h
      · simp at h
      · obtain ⟨right, c₁, given, last⟩ := Parsed.bind_gives.mp h
        split at last
        · simp at last
        · simp at last
    · exact (Parsed.ok_gives.mp h).2.symm

/-- The next token does not bind an operand more than a bound asks. -/
def Weak (b : Int) (c : Cursor) : Prop :=
  ∀ t ∈ c.ahead.head?, ∃ power, power? t.lexeme = some power ∧ power ≤ b

theorem weak_of_ended (h : c.ahead = []) : Weak b c := by
  simp [Weak, h]

theorem weak_of_ahead {t : Token} {rest : List Token} (h : c.ahead = t :: rest) :
    Weak b c ↔ ∃ power, power? t.lexeme = some power ∧ power ≤ b := by
  simp [Weak, h]

theorem chain_stop (left : Operand) (weak : Weak b c) : (chain b left c).Gives left c := by
  rw [chain]
  split
  · simp
  · rename_i t rest ahead
    obtain ⟨power, found, le⟩ := (weak_of_ahead ahead).mp weak
    rw [found]
    simp [Int.not_lt.mpr le]

theorem chain_gives_cases {left : Operand} (h : (chain b left c).Gives r c') :
    (Weak b c ∧ left = r ∧ c = c') ∨
    (∃ t rest power left' c₁, c.ahead = t :: rest ∧ power? t.lexeme = some power ∧ b < power ∧
      (next left c).Gives left' c₁ ∧ c₁.size < c.size ∧ (chain b left' c₁).Gives r c') := by
  rw [chain] at h
  split at h
  · rename_i ended
    exact .inl ⟨weak_of_ended ended, Parsed.ok_gives.mp h⟩
  · rename_i t rest ahead
    split at h
    · simp at h
    · rename_i power found
      split at h
      · rename_i lt
        obtain ⟨left', c₁, given, more⟩ := Parsed.bind_gives.mp h
        split at more
        · rename_i shorter
          exact .inr ⟨t, rest, power, left', c₁, ahead, found, lt, given, shorter,
            by simpa using more⟩
        · simp at more
      · rename_i le
        exact .inl ⟨(weak_of_ahead ahead).mpr ⟨power, found, Int.not_lt.mp le⟩,
          Parsed.ok_gives.mp h⟩

/-- After a missing operand no expression is given. -/
theorem chain_gives_none (h : (chain b none c).Gives (some e) c') : False := by
  rcases chain_gives_cases h with ⟨-, eq, -⟩ | ⟨t, rest, power, left', c₁, -, -, -, given, lt, -⟩
  · cases eq
  · cases left' with
    | none =>
      rw [next_gives_none given] at lt
      exact Nat.lt_irrefl _ lt
    | some e' =>
      obtain ⟨_, _, _, _, _, _, _, _, missing, _⟩ := next_gives.mp given
      cases missing

/-- The operators after an operand: none that binds enough, or one and those after it. -/
theorem chain_gives : (chain b (some l) c).Gives (some e) c' ↔
    (∃ op rest power r c₁, c.ahead = op :: rest ∧ isOperator op.kind = true ∧
      power? op.lexeme = some power ∧ b < power ∧
      (expr (rightPower op power) (c.past op rest)).Gives (some r) c₁ ∧
      (chain b (some (.binary op l r op.line)) c₁).Gives (some e) c') ∨
    (Weak b c ∧ l = e ∧ c = c') := by
  constructor
  · intro h
    rcases chain_gives_cases h with
      ⟨weak, eq, rfl⟩ | ⟨t, rest, power, left', c₁, ahead, found, lt, given, -, more⟩
    · exact .inr ⟨weak, Option.some.inj eq, rfl⟩
    · cases left' with
      | none => exact (chain_gives_none more).elim
      | some e' =>
        obtain ⟨op, rest', power', l', r, ahead', operator, found', eq, right, rfl⟩ :=
          next_gives.mp given
        rw [ahead] at ahead'
        cases ahead'
        rw [found] at found'
        cases found'
        cases eq
        exact .inl ⟨t, rest, power, r, c₁, ahead, operator, found, lt, right, more⟩
  · rintro (⟨op, rest, power, r, c₁, ahead, operator, found, lt, right, more⟩ | ⟨weak, rfl, rfl⟩)
    · have given := next_gives.mpr ⟨op, rest, power, l, r, ahead, operator, found, rfl, right, rfl⟩
      have shorter : c₁.size < c.size := by
        have := right.size_lt
        have := Cursor.size_past_lt ahead
        omega
      rw [chain]
      split
      · simp_all
      · rename_i ahead'
        rw [ahead] at ahead'
        cases ahead'
        simp only [found, lt, if_true, Parsed.bind_gives]
        refine ⟨_, _, given, ?_⟩
        rw [dif_pos shorter]
        simpa using more
    · exact chain_stop _ weak

theorem expr_gives : (expr b c).Gives (some e) c' ↔
    ∃ l c₁, ReadsFirst c l c₁ ∧ (chain b (some l) c₁).Gives (some e) c' := by
  rw [expr, Parsed.bind_gives]
  constructor
  · rintro ⟨left, c₁, given, more⟩
    rw [Parsed.weaken_gives] at more
    cases left with
    | none => exact (chain_gives_none more).elim
    | some l => exact ⟨l, c₁, first_gives.mp given, more⟩
  · rintro ⟨l, c₁, read, more⟩
    exact ⟨some l, c₁, first_gives.mpr read, by simpa using more⟩

/-! ### Chains under two bounds

Under a lower bound a chain takes more operators: it is the chain under the higher bound and then
goes on. -/

theorem chain_take {op : Token} {rest : List Token} {power : Int} {right : Expr} {c₁ : Cursor}
    (ahead : c.ahead = op :: rest) (operator : isOperator op.kind = true)
    (found : power? op.lexeme = some power) (lt : b < power)
    (given : (expr (rightPower op power) (c.past op rest)).Gives (some right) c₁)
    (more : (chain b (some (.binary op l right op.line)) c₁).Gives (some e) c') :
    (chain b (some l) c).Gives (some e) c' :=
  chain_gives.mpr (.inl ⟨op, rest, power, right, c₁, ahead, operator, found, lt, given, more⟩)

theorem chain_of_weak (weak : Weak b c) (h : (chain b (some l) c).Gives (some e) c') :
    l = e ∧ c = c' := by
  rcases chain_gives.mp h with
    ⟨op, rest, power, right, c₁, ahead, -, found, lt, -⟩ | ⟨-, eq⟩
  · obtain ⟨power', found', le⟩ := (weak_of_ahead ahead).mp weak
    rw [found] at found'
    cases found'
    omega
  · exact eq

theorem Weak.mono {b b' : Int} (le : b ≤ b') (weak : Weak b c) : Weak b' c := by
  intro t mem
  obtain ⟨power, found, le'⟩ := weak t mem
  exact ⟨power, found, by omega⟩

theorem shorter_of_taken {op : Token} {rest : List Token} {n : Nat} {right : Operand}
    {c₁ : Cursor} (ahead : c.ahead = op :: rest)
    (given : (expr b (c.past op rest)).Gives right c₁) (le : c.size ≤ n) : c₁.size < n := by
  have := given.size_lt
  have := Cursor.size_past_lt ahead
  omega

theorem chain_weak {l : Expr} {c : Cursor} (h : (chain b (some l) c).Gives (some e) c') :
    Weak b c' := by
  rcases chain_gives.mp h with
    ⟨op, rest, power, right, c₁, ahead, -, -, -, given, more⟩ | ⟨weak, -, rfl⟩
  · have := shorter_of_taken ahead given (Nat.le_refl _)
    exact chain_weak more
  · exact weak
termination_by c.size

/-- A chain stops at a token that does not bind enough. -/
theorem expr_weak (h : (expr b c).Gives (some e) c') : Weak b c' := by
  obtain ⟨l, c₁, -, more⟩ := expr_gives.mp h
  exact chain_weak more

theorem chain_trans {b b' : Int} {l m : Expr} {c c₁ : Cursor} (le : b ≤ b')
    (h : (chain b' (some l) c).Gives (some m) c₁) (h' : (chain b (some m) c₁).Gives (some e) c') :
    (chain b (some l) c).Gives (some e) c' := by
  rcases chain_gives.mp h with
    ⟨op, rest, power, right, c₂, ahead, operator, found, lt, given, more⟩ | ⟨-, rfl, rfl⟩
  · have := shorter_of_taken ahead given (Nat.le_refl _)
    exact chain_take ahead operator found (by omega) given (chain_trans le more h')
  · exact h'
termination_by c.size

theorem expr_trans {b b' : Int} {m : Expr} {c₁ : Cursor} (le : b ≤ b')
    (h : (expr b' c).Gives (some m) c₁) (h' : (chain b (some m) c₁).Gives (some e) c') :
    (expr b c).Gives (some e) c' := by
  obtain ⟨l, c₂, read, more⟩ := expr_gives.mp h
  exact expr_gives.mpr ⟨l, c₂, read, chain_trans le more h'⟩

theorem chain_split {b b' : Int} {l : Expr} {c : Cursor} (le : b ≤ b')
    (h : (chain b (some l) c).Gives (some e) c') :
    ∃ m c₁, (chain b' (some l) c).Gives (some m) c₁ ∧ (chain b (some m) c₁).Gives (some e) c' := by
  rcases chain_gives.mp h with
    ⟨op, rest, power, right, c₂, ahead, operator, found, lt, given, more⟩ | ⟨weak, rfl, rfl⟩
  · by_cases lt' : b' < power
    · have := shorter_of_taken ahead given (Nat.le_refl _)
      obtain ⟨m, c₁, first, last⟩ := chain_split le more
      exact ⟨m, c₁, chain_take ahead operator found lt' given first, last⟩
    · have weak' : Weak b' c := (weak_of_ahead ahead).mpr ⟨power, found, Int.not_lt.mp lt'⟩
      exact ⟨l, c, chain_stop _ weak', h⟩
  · exact ⟨l, c, chain_stop _ (weak.mono le), h⟩
termination_by c.size

theorem expr_split {b b' : Int} (le : b ≤ b') (h : (expr b c).Gives (some e) c') :
    ∃ m c₁, (expr b' c).Gives (some m) c₁ ∧ (chain b (some m) c₁).Gives (some e) c' := by
  obtain ⟨l, c₂, read, more⟩ := expr_gives.mp h
  obtain ⟨m, c₁, first, last⟩ := chain_split le more
  exact ⟨m, c₁, expr_gives.mpr ⟨l, c₂, read, first⟩, last⟩

/-! ### Powers of kinds -/

/-- The power of a sign of formulas. -/
def powerOf? : Kind → Option Int
  | .caret => some 4
  | .star | .slash => some 2
  | .plus | .minus => some 1
  | .lparen | .rparen => some 0
  | _ => none

theorem powerOf?_of_single? {d : Char} {k : Kind} (h : Kind.single? d = some k) :
    powerOf? k = power? (String.ofList [d]) := by
  unfold Kind.single? at h
  split at h <;> cases h <;> rfl

/-- A sign of formulas has the power of its kind. -/
theorem power?_of_kind {t : Token} {power : Int} (spelled : t.Spelled)
    (h : powerOf? t.kind = some power) : power? t.lexeme = some power := by
  obtain ⟨d, sign, eq⟩ : ∃ d, t.kind.sign? = some d ∧ power? (String.singleton d) = some power := by
    generalize t.kind = k at h
    unfold powerOf? at h
    split at h <;> cases h <;> exact ⟨_, rfl, rfl⟩
  rw [spelled.lexeme_eq sign, eq]

/-- How the lexemes with a power start. -/
theorem head_of_power? {d : Char} {ds : List Char} {power : Int}
    (h : power? (String.ofList (d :: ds)) = some power) :
    Kind.withEquals? d = none ∧ ¬ (d = '"' ∨ d = '\'') ∧ Text.isDigit d = false ∧
      (Scanner.isNameStart d = true → Kind.keyword? (String.ofList (d :: ds)) = none) := by
  have chars : ∀ word : String, String.ofList (d :: ds) = word → d :: ds = word.toList := by
    rintro word rfl
    exact String.toList_ofList.symm
  unfold power? at h
  split at h <;> try cases h
  all_goals
    rename_i eq
    have eq := chars _ eq
    simp at eq
    obtain ⟨rfl, rfl⟩ := eq
    decide

/-- Besides the signs of formulas only a name binds operands. -/
theorem kind_of_power? {t : Token} {power : Int} (spelled : t.Spelled)
    (h : power? t.lexeme = some power) : powerOf? t.kind = some power ∨ t.kind = .identifier := by
  rw [← String.ofList_toList (s := t.lexeme)] at h
  rw [Token.Spelled] at spelled
  generalize t.kind = k at spelled
  generalize t.lexeme.toList = cs at spelled h
  cases spelled.scanned with
  | single found => exact .inl (by rw [powerOf?_of_single? found, h])
  | minus =>
    cases h
    exact .inl rfl
  | alone found | paired found => simp [(head_of_power? h).1] at found
  | string quote => exact absurd quote (head_of_power? h).2.1
  | integer digits | float digits =>
    have digit := digits _ List.mem_cons_self
    rw [(head_of_power? h).2.2.1] at digit
    cases digit
  | word start => exact .inr (by rw [(head_of_power? h).2.2.2 start]; rfl)

end ScriptLang.Parse.Binding
