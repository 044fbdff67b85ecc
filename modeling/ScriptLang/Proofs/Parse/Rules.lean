import ScriptLang.Proofs.Parse.Grammar

/-!
Parsing rules as inference rules.

`Parsed.Gives` says that a rule reads a value and stops at a place. Each function of the parser has
one lemma here that says what it gives in terms of what the functions it calls give, so that later
proofs never open a parsing function. `Cursor.Spans` says which tokens lie between two places.
-/

namespace ScriptLang

namespace Parsed

variable {α β : Type} {m n : Nat}

/-- The rule succeeds with the given value and stops at the given place. -/
def Gives (r : Parsed α n) (a : α) (c : Cursor) : Prop :=
  ∃ shorter, r = .ok a c shorter

@[simp] theorem ok_gives {a b : α} {c c' : Cursor} {h : c.size < n} :
    (Parsed.ok a c h).Gives b c' ↔ a = b ∧ c = c' := by
  constructor
  · rintro ⟨h', eq⟩
    cases eq
    exact ⟨rfl, rfl⟩
  · rintro ⟨rfl, rfl⟩
    exact ⟨h, rfl⟩

@[simp] theorem error_gives {e : ParseError} {c c' : Cursor} {a : α} :
    ¬ (Parsed.error e c : Parsed α n).Gives a c' := by
  rintro ⟨_, eq⟩
  cases eq

@[simp] theorem weaken_gives {r : Parsed α m} {h : m ≤ n} {a : α} {c : Cursor} :
    (r.weaken h).Gives a c ↔ r.Gives a c := by
  cases r <;> simp [weaken]

@[simp] theorem map_gives {f : α → β} {r : Parsed α n} {b : β} {c : Cursor} :
    (r.map f).Gives b c ↔ ∃ a, r.Gives a c ∧ f a = b := by
  cases r with
  | ok a c' h =>
    simp only [map, ok_gives]
    constructor
    · rintro ⟨rfl, rfl⟩
      exact ⟨a, ⟨rfl, rfl⟩, rfl⟩
    · rintro ⟨_, ⟨rfl, rfl⟩, rfl⟩
      exact ⟨rfl, rfl⟩
  | error e c' => simp [map]

/-- What a rule gives leaves fewer tokens than its bound. -/
theorem Gives.size_lt {r : Parsed α n} {a : α} {c : Cursor} (h : r.Gives a c) : c.size < n :=
  h.choose

theorem bind_gives {r : Parsed α m} {f : α → (c : Cursor) → c.size < m → Parsed β n} {b : β}
    {c : Cursor} :
    (r.bind f).Gives b c ↔ ∃ a c₁, ∃ given : r.Gives a c₁, (f a c₁ given.size_lt).Gives b c := by
  cases r with
  | ok a c' h =>
    simp only [bind]
    constructor
    · intro given
      exact ⟨a, c', ⟨h, rfl⟩, given⟩
    · rintro ⟨_, _, first, given⟩
      obtain ⟨rfl, rfl⟩ := ok_gives.mp first
      exact given
  | error e c' => simp [bind]

end Parsed

namespace Cursor

/-- The next token is none of the given kinds. -/
def Before (c : Cursor) (kinds : List Kind) : Prop :=
  ∀ t ∈ c.ahead.head?, t.kind ∉ kinds

/-- The tokens from one place to a later one. -/
structure Spans (c : Cursor) (ts : List Token) (c' : Cursor) : Prop where
  ahead : c.ahead = ts ++ c'.ahead
  behind : c'.behind = ts.reverse ++ c.behind

theorem Spans.refl (c : Cursor) : c.Spans [] c := ⟨rfl, rfl⟩

theorem Spans.trans {c c₁ c₂ : Cursor} {ts us : List Token} (h : c.Spans ts c₁)
    (h' : c₁.Spans us c₂) : c.Spans (ts ++ us) c₂ := by
  refine ⟨?_, ?_⟩
  · rw [h.ahead, h'.ahead, List.append_assoc]
  · rw [h'.behind, h.behind, List.reverse_append, List.append_assoc]

theorem Spans.past {c : Cursor} {t : Token} {rest : List Token} (h : c.ahead = t :: rest) :
    c.Spans [t] (c.past t rest) :=
  ⟨h, rfl⟩

@[simp] theorem ahead_past (c : Cursor) (t : Token) (rest : List Token) :
    (c.past t rest).ahead = rest := rfl

@[simp] theorem behind_past (c : Cursor) (t : Token) (rest : List Token) :
    (c.past t rest).behind = t :: c.behind := rfl

theorem before_of_ahead {c : Cursor} {t : Token} {rest : List Token} {kinds : List Kind}
    (h : c.ahead = t :: rest) : c.Before kinds ↔ t.kind ∉ kinds := by
  simp [Before, h]

theorem before_of_ended {c : Cursor} {kinds : List Kind} (h : c.ahead = []) : c.Before kinds := by
  simp [Before, h]

theorem nextIs_iff {c : Cursor} {k : Kind} :
    c.nextIs k = true ↔ ∃ t rest, c.ahead = t :: rest ∧ t.kind = k := by
  unfold nextIs
  split <;> rename_i h <;> simp [h]

theorem nextIs_eq_false_iff {c : Cursor} {k : Kind} : c.nextIs k = false ↔ c.Before [k] := by
  unfold nextIs
  split <;> rename_i h <;> simp [Before, h]

theorem expect_gives {c c' : Cursor} {k : Kind} {t : Token} :
    (c.expect k).Gives t c' ↔
      ∃ rest, c.ahead = t :: rest ∧ t.kind = k ∧ c' = c.past t rest := by
  unfold expect
  split
  · rename_i h
    split <;> simp [h]
  · rename_i t' rest h
    split
    · rename_i eq
      simp only [Parsed.ok_gives, h, List.cons.injEq]
      constructor
      · rintro ⟨rfl, rfl⟩
        exact ⟨rest, ⟨rfl, rfl⟩, by simpa using eq, rfl⟩
      · rintro ⟨_, ⟨rfl, rfl⟩, _, rfl⟩
        exact ⟨rfl, rfl⟩
    · rename_i ne
      simp only [Parsed.error_gives, h, List.cons.injEq, false_iff]
      rintro ⟨_, ⟨rfl, rfl⟩, eq, _⟩
      exact ne (by simp [eq])

theorem nextIs_eq_false_of_expect {c c' : Cursor} {k k' : Kind} {t : Token}
    (h : (c.expect k).Gives t c') (ne : k ≠ k') : c.nextIs k' = false := by
  obtain ⟨rest, ahead, rfl, -⟩ := expect_gives.mp h
  exact nextIs_eq_false_iff.mpr ((before_of_ahead ahead).mpr (by simpa using ne))

/-- A token of a kind either follows or does not. -/
theorem expect_or_before (c : Cursor) (k : Kind) :
    (∃ t c', (c.expect k).Gives t c') ∨ c.Before [k] := by
  cases ahead : c.ahead with
  | nil => exact .inr (before_of_ended ahead)
  | cons t rest =>
    by_cases kind : t.kind = k
    · exact .inl ⟨t, _, expect_gives.mpr ⟨rest, ahead, kind, rfl⟩⟩
    · exact .inr ((before_of_ahead ahead).mpr (by simpa using kind))

end Cursor

namespace Parse

variable {c c' : Cursor} {e l : Expr} {n : Nat}

/-! ### Operators -/

theorem level_zero_gives : (level 0 c).Gives e c' ↔ (unary c).Gives e c' := by
  rw [level]

theorem level_succ_gives : (level (n + 1) c).Gives e c' ↔
    ∃ left c₁, (level n c).Gives left c₁ ∧ (levelRest n left c₁).Gives e c' := by
  rw [level, Parsed.bind_gives]
  constructor
  · rintro ⟨left, c₁, given, rest⟩
    exact ⟨left, c₁, given, by simpa using rest⟩
  · rintro ⟨left, c₁, given, rest⟩
    exact ⟨left, c₁, given, by simpa using rest⟩

theorem levelRest_gives : (levelRest n l c).Gives e c' ↔
    (∃ op rest right c₁, c.ahead = op :: rest ∧ op.kind ∈ operators n ∧
      (level n (c.past op rest)).Gives right c₁ ∧
      (levelRest n (operation n op l right) c₁).Gives e c') ∨
    (c.Before (operators n) ∧ l = e ∧ c = c') := by
  rw [levelRest]
  split
  · rename_i h
    simp [h, Cursor.before_of_ended]
  · rename_i op rest h
    rw [Cursor.before_of_ahead h]
    split
    · rename_i mem
      have mem' : op.kind ∈ operators n := by simpa using mem
      rw [Parsed.bind_gives]
      constructor
      · rintro ⟨right, c₁, given, more⟩
        exact .inl ⟨op, rest, right, c₁, h, mem', given, by simpa using more⟩
      · rintro (⟨op', rest', right, c₁, h', -, given, more⟩ | ⟨notMem, -⟩)
        · rw [h] at h'
          cases h'
          exact ⟨right, c₁, given, by simpa using more⟩
        · exact absurd mem' notMem
    · rename_i notMem
      have notMem' : op.kind ∉ operators n := by simpa using notMem
      rw [Parsed.ok_gives]
      constructor
      · rintro ⟨rfl, rfl⟩
        exact .inr ⟨notMem', rfl, rfl⟩
      · rintro (⟨op', rest', right, c₁, h', mem, -⟩ | ⟨-, rfl, rfl⟩)
        · rw [h] at h'
          cases h'
          exact absurd mem notMem'
        · exact ⟨rfl, rfl⟩

theorem unary_gives : (unary c).Gives e c' ↔
    (∃ op rest operand, c.ahead = op :: rest ∧ op.kind ∈ signs ∧
      (unary (c.past op rest)).Gives operand c' ∧ Expr.unary op operand op.line = e) ∨
    (c.Before signs ∧ (exponent c).Gives e c') := by
  rw [unary]
  split
  · rename_i h
    simp [h, Cursor.before_of_ended]
  · rename_i op rest h
    rw [Cursor.before_of_ahead h]
    split
    · rename_i sign
      rw [isSign_iff] at sign
      rw [Parsed.bind_gives]
      constructor
      · rintro ⟨operand, c₁, given, eq⟩
        obtain ⟨rfl, rfl⟩ := Parsed.ok_gives.mp eq
        exact .inl ⟨op, rest, operand, h, sign, given, rfl⟩
      · rintro (⟨op', rest', operand, h', -, given, rfl⟩ | ⟨notSign, -⟩)
        · rw [h] at h'
          cases h'
          exact ⟨operand, c', given, by simp⟩
        · exact absurd sign notSign
    · rename_i notSign
      rw [isSign_iff] at notSign
      constructor
      · intro given
        exact .inr ⟨notSign, given⟩
      · rintro (⟨op', rest', operand, h', sign, -⟩ | ⟨-, given⟩)
        · rw [h] at h'
          cases h'
          exact absurd sign notSign
        · exact given

theorem exponent_gives : (exponent c).Gives e c' ↔
    ∃ left c₁, (primary c).Gives left c₁ ∧ (exponentRest left c₁).Gives e c' := by
  rw [exponent, Parsed.bind_gives]
  constructor
  · rintro ⟨left, c₁, given, rest⟩
    exact ⟨left, c₁, given, by simpa using rest⟩
  · rintro ⟨left, c₁, given, rest⟩
    exact ⟨left, c₁, given, by simpa using rest⟩

theorem exponentRest_gives : (exponentRest l c).Gives e c' ↔
    (∃ op rest right c₁, c.ahead = op :: rest ∧ op.kind = .caret ∧
      (exponent (c.past op rest)).Gives right c₁ ∧
      (exponentRest (.binary op l right op.line) c₁).Gives e c') ∨
    (c.Before [.caret] ∧ l = e ∧ c = c') := by
  rw [exponentRest]
  split
  · rename_i h
    simp [h, Cursor.before_of_ended]
  · rename_i op rest h
    rw [Cursor.before_of_ahead h, List.mem_singleton]
    split
    · rename_i caret
      have caret' : op.kind = .caret := by simpa using caret
      rw [Parsed.bind_gives]
      constructor
      · rintro ⟨right, c₁, given, more⟩
        exact .inl ⟨op, rest, right, c₁, h, caret', given, by simpa using more⟩
      · rintro (⟨op', rest', right, c₁, h', -, given, more⟩ | ⟨notCaret, -⟩)
        · rw [h] at h'
          cases h'
          exact ⟨right, c₁, given, by simpa using more⟩
        · exact absurd caret' notCaret
    · rename_i notCaret
      have notCaret' : op.kind ≠ .caret := by simpa using notCaret
      rw [Parsed.ok_gives]
      constructor
      · rintro ⟨rfl, rfl⟩
        exact .inr ⟨notCaret', rfl, rfl⟩
      · rintro (⟨op', rest', right, c₁, h', caret, -⟩ | ⟨-, rfl, rfl⟩)
        · rw [h] at h'
          cases h'
          exact absurd caret notCaret'
        · exact ⟨rfl, rfl⟩

/-! ### Operands -/

/-- The forms of an operand that holds no operator outside parentheses. -/
inductive ReadsPrimary (c : Cursor) : Expr → Cursor → Prop where
  | integer {t rest} {n : Int} : c.ahead = t :: rest → t.kind = .integer →
      Number.readWhole t.lexeme = .ok n → ReadsPrimary c (.integer n t.line) (c.past t rest)
  | real {t rest} {x : Float} : c.ahead = t :: rest → t.kind = .float →
      Number.readReal t.lexeme = .ok x → ReadsPrimary c (.real x t.line) (c.past t rest)
  | yes {t rest} : c.ahead = t :: rest → t.kind = .kwTrue →
      ReadsPrimary c (.bool true t.line) (c.past t rest)
  | no {t rest} : c.ahead = t :: rest → t.kind = .kwFalse →
      ReadsPrimary c (.bool false t.line) (c.past t rest)
  | text {t rest} : c.ahead = t :: rest → t.kind = .string →
      ReadsPrimary c (.text (unquote t.lexeme) t.line) (c.past t rest)
  | group {t rest inner c₁ close rest'} : c.ahead = t :: rest → t.kind = .lparen →
      (level levels (c.past t rest)).Gives inner c₁ → c₁.ahead = close :: rest' →
      close.kind = .rparen → ReadsPrimary c (.group inner close.line) (c₁.past close rest')
  | name {t rest} : c.ahead = t :: rest → t.kind = .identifier →
      (c.past t rest).Before [.lparen] → ReadsPrimary c (.name t.lexeme t.line) (c.past t rest)
  | call {t paren rest es c₁ close rest'} : c.ahead = t :: paren :: rest →
      t.kind = .identifier → paren.kind = .lparen →
      (args ((c.past t (paren :: rest)).past paren rest)).Gives es c₁ →
      c₁.ahead = close :: rest' → close.kind = .rparen →
      ReadsPrimary c (.call t.lexeme es close.line) (c₁.past close rest')

theorem readsPrimary_of_gives (h : (primary c).Gives e c') : ReadsPrimary c e c' := by
  rw [primary] at h
  split at h
  · rename_i ended
    simp only [Parsed.map_gives, Cursor.expect_gives] at h
    obtain ⟨t, ⟨rest, ahead, -⟩, -⟩ := h
    simp [ended] at ahead
  · rename_i t rest ahead
    split at h
    · rename_i k
      split at h
      · rename_i read
        obtain ⟨rfl, rfl⟩ := Parsed.ok_gives.mp h
        exact .integer ahead k read
      · simp at h
    · rename_i k
      split at h
      · rename_i read
        obtain ⟨rfl, rfl⟩ := Parsed.ok_gives.mp h
        exact .real ahead k read
      · simp at h
    · rename_i k
      obtain ⟨rfl, rfl⟩ := Parsed.ok_gives.mp h
      exact .yes ahead k
    · rename_i k
      obtain ⟨rfl, rfl⟩ := Parsed.ok_gives.mp h
      exact .no ahead k
    · rename_i k
      obtain ⟨rfl, rfl⟩ := Parsed.ok_gives.mp h
      exact .text ahead k
    · rename_i k
      obtain ⟨inner, c₁, given, more⟩ := Parsed.bind_gives.mp h
      split at more
      · simp at more
      · rename_i close rest' ahead'
        split at more
        · rename_i closes
          obtain ⟨rfl, rfl⟩ := Parsed.ok_gives.mp more
          exact .group ahead k given ahead' (by simpa using closes)
        · simp at more
    · rename_i k
      split at h
      · rename_i ended
        obtain ⟨rfl, rfl⟩ := Parsed.ok_gives.mp h
        exact .name ahead k (Cursor.before_of_ended ended)
      · rename_i paren rest' ahead'
        split at h
        · rename_i opens
          rw [Cursor.ahead_past] at ahead'
          subst ahead'
          obtain ⟨es, c₁, given, more⟩ := Parsed.bind_gives.mp h
          obtain ⟨close, c₂, closes, last⟩ := Parsed.bind_gives.mp more
          obtain ⟨rest'', ahead'', kind, rfl⟩ := Cursor.expect_gives.mp closes
          obtain ⟨rfl, rfl⟩ := Parsed.ok_gives.mp last
          exact .call ahead k (by simpa using opens) given ahead'' kind
        · rename_i notOpens
          obtain ⟨rfl, rfl⟩ := Parsed.ok_gives.mp h
          exact .name ahead k ((Cursor.before_of_ahead ahead').mpr (by simpa using notOpens))
    · simp at h

theorem primary_gives_of_reads (h : ReadsPrimary c e c') : (primary c).Gives e c' := by
  have opened : ∀ t rest, c.ahead = t :: rest → ∀ t' rest', c.ahead = t' :: rest' →
      t = t' ∧ rest = rest' := by
    intro t rest h t' rest' h'
    rw [h] at h'
    exact List.cons.inj h'
  rw [primary]
  cases h with
  | integer ahead k read =>
    split
    · simp_all
    · obtain ⟨rfl, rfl⟩ := opened _ _ ahead _ _ ‹_›
      simp [k, read]
  | real ahead k read =>
    split
    · simp_all
    · obtain ⟨rfl, rfl⟩ := opened _ _ ahead _ _ ‹_›
      simp [k, read]
  | yes ahead k =>
    split
    · simp_all
    · obtain ⟨rfl, rfl⟩ := opened _ _ ahead _ _ ‹_›
      simp [k]
  | no ahead k =>
    split
    · simp_all
    · obtain ⟨rfl, rfl⟩ := opened _ _ ahead _ _ ‹_›
      simp [k]
  | text ahead k =>
    split
    · simp_all
    · obtain ⟨rfl, rfl⟩ := opened _ _ ahead _ _ ‹_›
      simp [k]
  | group ahead k given ahead' closes =>
    split
    · simp_all
    · obtain ⟨rfl, rfl⟩ := opened _ _ ahead _ _ ‹_›
      simp only [k, Parsed.bind_gives]
      refine ⟨_, _, given, ?_⟩
      split
      · simp_all
      · simp_all
  | name ahead k before =>
    split
    · simp_all
    · obtain ⟨rfl, rfl⟩ := opened _ _ ahead _ _ ‹_›
      simp only [k]
      split
      · simp
      · rename_i paren rest' ahead'
        have notOpens := (Cursor.before_of_ahead ahead').mp before
        simp_all
  | call ahead k opens given ahead' closes =>
    split
    · simp_all
    · obtain ⟨rfl, rfl⟩ := opened _ _ ahead _ _ ‹_›
      simp only [k]
      split
      · simp_all
      · rename_i paren rest' ahead''
        rw [Cursor.ahead_past] at ahead''
        cases ahead''
        simp only [opens, beq_self_eq_true, if_true, Parsed.bind_gives]
        refine ⟨_, _, given, ?_⟩
        have closed := Cursor.expect_gives.mpr ⟨_, ahead', closes, rfl⟩
        exact ⟨_, _, closed, by simp⟩

theorem primary_gives : (primary c).Gives e c' ↔ ReadsPrimary c e c' :=
  ⟨readsPrimary_of_gives, primary_gives_of_reads⟩

/-- The forms of a list of arguments before its closing parenthesis. -/
inductive ReadsArgs (c : Cursor) : List Expr → Cursor → Prop where
  | none : c.nextIs .rparen → ReadsArgs c [] c
  | last {e : Expr} {c' : Cursor} : c.Before [.rparen] → (level levels c).Gives e c' →
      c'.nextIs .rparen → ReadsArgs c [e] c'
  | more {e : Expr} {c₁ comma c₂ es} {c' : Cursor} : c.Before [.rparen] →
      (level levels c).Gives e c₁ → (c₁.expect .comma).Gives comma c₂ → (args c₂).Gives es c' →
      ReadsArgs c (e :: es) c'

theorem args_gives {es : List Expr} : (args c).Gives es c' ↔ ReadsArgs c es c' := by
  rw [args]
  constructor
  · intro h
    split at h
    · rename_i closes
      obtain ⟨rfl, rfl⟩ := Parsed.ok_gives.mp h
      exact .none closes
    · rename_i open'
      have before := Cursor.nextIs_eq_false_iff.mp (Bool.eq_false_iff.mpr open')
      obtain ⟨e, c₁, given, more⟩ := Parsed.bind_gives.mp h
      split at more
      · rename_i closes
        obtain ⟨rfl, rfl⟩ := Parsed.ok_gives.mp more
        exact .last before given closes
      · obtain ⟨comma, c₂, read, rest⟩ := Parsed.bind_gives.mp more
        simp only [Parsed.weaken_gives, Parsed.map_gives] at rest
        obtain ⟨es, others, rfl⟩ := rest
        exact .more before given read others
  · intro h
    cases h with
    | none closes => simp [closes]
    | last before given closes =>
      rw [if_neg (by simp [Cursor.nextIs_eq_false_iff.mpr before]), Parsed.bind_gives]
      exact ⟨_, _, given, by simp [closes]⟩
    | more before given read others =>
      rw [if_neg (by simp [Cursor.nextIs_eq_false_iff.mpr before]), Parsed.bind_gives]
      refine ⟨_, _, given, ?_⟩
      rw [if_neg (by simp [Cursor.nextIs_eq_false_of_expect read]), Parsed.bind_gives]
      exact ⟨_, _, read, by simpa using others⟩

end Parse

end ScriptLang
