import ScriptLang.Proofs.Parse.Rules

/-!
Rules for statements as inference rules, in the manner of `ScriptLang.Proofs.Parse.Rules`.
-/

namespace ScriptLang.Parse

variable {c c' : Cursor} {e : Expr} {s : Stmt} {b : Block}

/-! ### Parts of statements -/

/-- The forms of a list of parameters before its closing parenthesis, after `count` others. -/
inductive ReadsParams (count : Nat) (c : Cursor) : List Param → Cursor → Prop where
  | none : c.nextIs .rparen → ReadsParams count c [] c
  | last {t} {c' : Cursor} : (c.expect .identifier).Gives t c' → count < maxParams →
      c'.nextIs .rparen → ReadsParams count c [⟨t.lexeme, t.line⟩] c'
  | more {t c₁ comma c₂ ps} {c' : Cursor} : (c.expect .identifier).Gives t c₁ → count < maxParams →
      (c₁.expect .comma).Gives comma c₂ → (params (count + 1) c₂).Gives ps c' →
      ReadsParams count c (⟨t.lexeme, t.line⟩ :: ps) c'

theorem params_gives {count : Nat} {ps : List Param} :
    (params count c).Gives ps c' ↔ ReadsParams count c ps c' := by
  rw [params]
  constructor
  · intro h
    split at h
    · rename_i closes
      obtain ⟨rfl, rfl⟩ := Parsed.ok_gives.mp h
      exact .none closes
    · obtain ⟨t, c₁, read, more⟩ := Parsed.bind_gives.mp h
      split at more
      · simp at more
      · rename_i few
        split at more
        · rename_i closes
          obtain ⟨rfl, rfl⟩ := Parsed.ok_gives.mp more
          exact .last read (Nat.lt_of_not_le few) closes
        · obtain ⟨comma, c₂, separated, rest⟩ := Parsed.bind_gives.mp more
          simp only [Parsed.weaken_gives, Parsed.map_gives] at rest
          obtain ⟨ps, others, rfl⟩ := rest
          exact .more read (Nat.lt_of_not_le few) separated others
  · intro h
    cases h with
    | none closes => simp [closes]
    | last read few closes =>
      rw [if_neg (by simp [Cursor.nextIs_eq_false_of_expect read]), Parsed.bind_gives]
      refine ⟨_, _, read, ?_⟩
      rw [if_neg (Nat.not_le_of_lt few), if_pos closes]
      simp
    | more read few separated others =>
      rw [if_neg (by simp [Cursor.nextIs_eq_false_of_expect read]), Parsed.bind_gives]
      refine ⟨_, _, read, ?_⟩
      rw [if_neg (Nat.not_le_of_lt few),
        if_neg (by simp [Cursor.nextIs_eq_false_of_expect separated]), Parsed.bind_gives]
      exact ⟨_, _, separated, by simpa using others⟩

/-- A part that stands after a token of a certain kind and is left out without that token. -/
theorem optional_gives {α : Type} {n : Nat} {bound : Cursor → Nat} {k : Kind}
    {r : Parsed (Option α) n} {part : (c : Cursor) → Parsed α (bound c)} {o : Option α}
    (hit : ∀ t c₁, (c.expect k).Gives t c₁ →
      (r.Gives o c' ↔ ∃ a, (part c₁).Gives a c' ∧ some a = o))
    (miss : c.Before [k] → (r.Gives o c' ↔ none = o ∧ c = c')) :
    r.Gives o c' ↔
      (∃ t c₁ a, (c.expect k).Gives t c₁ ∧ (part c₁).Gives a c' ∧ some a = o) ∨
      (c.Before [k] ∧ none = o ∧ c = c') := by
  constructor
  · intro h
    rcases c.expect_or_before k with ⟨t, c₁, read⟩ | before
    · obtain ⟨a, given, eq⟩ := (hit t c₁ read).mp h
      exact .inl ⟨t, c₁, a, read, given, eq⟩
    · exact .inr ⟨before, (miss before).mp h⟩
  · rintro (⟨t, c₁, a, read, given, eq⟩ | ⟨before, eq⟩)
    · exact (hit t c₁ read).mpr ⟨a, given, eq⟩
    · exact (miss before).mpr eq

theorem exprAfter?_gives {k : Kind} {o : Option Expr} : (exprAfter? k c).Gives o c' ↔
    (∃ t c₁ e, (c.expect k).Gives t c₁ ∧ (expr c₁).Gives e c' ∧ some e = o) ∨
    (c.Before [k] ∧ none = o ∧ c = c') := by
  apply optional_gives
  · intro t c₁ read
    obtain ⟨rest, ahead, kind, rfl⟩ := Cursor.expect_gives.mp read
    rw [exprAfter?]
    split
    · simp_all
    · obtain ⟨rfl, rfl⟩ := List.cons.inj (ahead.symm.trans ‹_›)
      simp [kind]
  · intro before
    rw [exprAfter?]
    split
    · simp
    · rename_i t rest ahead
      have kind := (Cursor.before_of_ahead ahead).mp before
      simp_all

theorem elseBlock?_gives {o : Option Block} : (elseBlock? c).Gives o c' ↔
    (∃ t c₁ b, (c.expect .kwElse).Gives t c₁ ∧ (block c₁).Gives b c' ∧ some b = o) ∨
    (c.Before [.kwElse] ∧ none = o ∧ c = c') := by
  apply optional_gives
  · intro t c₁ read
    obtain ⟨rest, ahead, kind, rfl⟩ := Cursor.expect_gives.mp read
    rw [elseBlock?]
    split
    · simp_all
    · obtain ⟨rfl, rfl⟩ := List.cons.inj (ahead.symm.trans ‹_›)
      simp [kind]
  · intro before
    rw [elseBlock?]
    split
    · simp
    · rename_i t rest ahead
      have kind := (Cursor.before_of_ahead ahead).mp before
      simp_all

/-! ### Statements -/

/-- The words that decide the form of a statement; any other token starts an assignment or a
call. -/
def statementWords : List Kind :=
  [.kwPrint, .kwPrintln, .kwIf, .kwWhile, .kwFor, .kwFunc, .kwRet, .kwLocal]

/-- The forms of a statement. -/
inductive ReadsStmt (c : Cursor) : Stmt → Cursor → Prop where
  | print {t c₁ e} {c' : Cursor} : (c.expect .kwPrint).Gives t c₁ → (expr c₁).Gives e c' →
      ReadsStmt c (.print e (.str "") c'.lastLine) c'
  | println {t c₁ e} {c' : Cursor} : (c.expect .kwPrintln).Gives t c₁ → (expr c₁).Gives e c' →
      ReadsStmt c (.print e (.str "\n") c'.lastLine) c'
  | branch {t c₁ test c₂ t' c₃ b c₄ eb c₅ close} {c' : Cursor} :
      (c.expect .kwIf).Gives t c₁ → (expr c₁).Gives test c₂ → (c₂.expect .kwThen).Gives t' c₃ →
      (block c₃).Gives b c₄ → (elseBlock? c₄).Gives eb c₅ → (c₅.expect .kwEnd).Gives close c' →
      ReadsStmt c (.branch test b eb close.line) c'
  | loop {t c₁ test c₂ t' c₃ b c₄ close} {c' : Cursor} :
      (c.expect .kwWhile).Gives t c₁ → (expr c₁).Gives test c₂ → (c₂.expect .kwDo).Gives t' c₃ →
      (block c₃).Gives b c₄ → (c₄.expect .kwEnd).Gives close c' →
      ReadsStmt c (.loop test b close.line) c'
  | count {t c₁ var line c₂ t₂ c₃ start c₄ t₄ c₅ stop c₆ step c₇ t₇ c₈ b c₉ close} {c' : Cursor} :
      (c.expect .kwFor).Gives t c₁ → (primary c₁).Gives (.name var line) c₂ →
      (c₂.expect .assign).Gives t₂ c₃ → (expr c₃).Gives start c₄ →
      (c₄.expect .comma).Gives t₄ c₅ → (expr c₅).Gives stop c₆ →
      (exprAfter? .comma c₆).Gives step c₇ → (c₇.expect .kwDo).Gives t₇ c₈ →
      (block c₈).Gives b c₉ → (c₉.expect .kwEnd).Gives close c' →
      ReadsStmt c (.count var line start stop step b close.line) c'
  | func {t c₁ name c₂ t₂ c₃ ps c₄ t₄ c₅ b c₆ close} {c' : Cursor} :
      (c.expect .kwFunc).Gives t c₁ → (c₁.expect .identifier).Gives name c₂ →
      (c₂.expect .lparen).Gives t₂ c₃ → (params 0 c₃).Gives ps c₄ →
      (c₄.expect .rparen).Gives t₄ c₅ → (block c₅).Gives b c₆ →
      (c₆.expect .kwEnd).Gives close c' → ReadsStmt c (.func name.lexeme ps b name.line) c'
  | ret {t c₁ e} {c' : Cursor} : (c.expect .kwRet).Gives t c₁ → (expr c₁).Gives e c' →
      ReadsStmt c (.ret e c'.lastLine) c'
  | assignLocal {t c₁ target c₂ t₂ c₃ e} {c' : Cursor} : (c.expect .kwLocal).Gives t c₁ →
      (expr c₁).Gives target c₂ → (c₂.expect .assign).Gives t₂ c₃ → (expr c₃).Gives e c' →
      ReadsStmt c (.assignLocal target e c'.lastLine) c'
  | assign {target c₁ t₁ c₂ e} {c' : Cursor} : c.ahead ≠ [] → c.Before statementWords →
      (expr c).Gives target c₁ → (c₁.expect .assign).Gives t₁ c₂ → (expr c₂).Gives e c' →
      ReadsStmt c (.assign target e c'.lastLine) c'
  | call {name es line} {c' : Cursor} : c.ahead ≠ [] → c.Before statementWords →
      (expr c).Gives (.call name es line) c' → c'.Before [.assign] →
      ReadsStmt c (.call name es line) c'

/-- The first token decides which rule reads a statement. -/
theorem stmt_gives_of_ahead {t : Token} {rest : List Token} (ahead : c.ahead = t :: rest) :
    (stmt c).Gives s c' ↔
      match t.kind with
      | .kwPrint => (printRest (.str "") (c.past t rest)).Gives s c'
      | .kwPrintln => (printRest (.str "\n") (c.past t rest)).Gives s c'
      | .kwIf => (branchStmt c).Gives s c'
      | .kwWhile => (loopStmt c).Gives s c'
      | .kwFor => (countStmt c).Gives s c'
      | .kwFunc => (funcStmt c).Gives s c'
      | .kwRet => (retStmt c).Gives s c'
      | .kwLocal => (localStmt c).Gives s c'
      | _ => (plainStmt c).Gives s c' := by
  rw [stmt]
  split
  · simp_all
  · obtain ⟨rfl, rfl⟩ := List.cons.inj (ahead.symm.trans ‹_›)
    generalize t.kind = k
    split <;> simp only [Parsed.weaken_gives]

theorem callStmt_eq_ok {e : Expr} : callStmt e = .ok s ↔
    ∃ name es line, e = .call name es line ∧ .call name es line = s := by
  cases e <;> simp only [callStmt, reduceCtorEq, false_and, exists_false]
  constructor
  · intro h
    cases h
    exact ⟨_, _, _, rfl, rfl⟩
  · rintro ⟨_, _, _, h, rfl⟩
    cases h
    rfl

theorem plainStmt_gives (ahead : c.ahead ≠ []) (words : c.Before statementWords)
    (h : (plainStmt c).Gives s c') : ReadsStmt c s c' := by
  rw [plainStmt] at h
  obtain ⟨left, c₁, target, more⟩ := Parsed.bind_gives.mp h
  obtain ⟨value, c₂, after, last⟩ := Parsed.bind_gives.mp more
  rcases exprAfter?_gives.mp after with ⟨t, c₃, e, sign, given, rfl⟩ | ⟨before, rfl, rfl⟩
  · obtain ⟨rfl, rfl⟩ := Parsed.ok_gives.mp last
    exact .assign ahead words target sign given
  · simp only at last
    split at last
    · rename_i called
      obtain ⟨rfl, rfl⟩ := Parsed.ok_gives.mp last
      obtain ⟨name, es, line, rfl, rfl⟩ := callStmt_eq_ok.mp called
      exact .call ahead words target before
    · simp at last

/-- A statement that no word decides is an assignment or a call. -/
theorem stmt_gives_plain (nonempty : c.ahead ≠ []) (words : c.Before statementWords) :
    (stmt c).Gives s c' ↔ (plainStmt c).Gives s c' := by
  cases ahead : c.ahead with
  | nil => exact absurd ahead nonempty
  | cons t rest =>
    rw [stmt_gives_of_ahead ahead]
    rw [Cursor.before_of_ahead ahead] at words
    split <;> rename_i kind <;> first | rfl | simp [kind, statementWords] at words

theorem readsStmt_of_gives (h : (stmt c).Gives s c') : ReadsStmt c s c' := by
  cases ahead : c.ahead with
  | nil =>
    rw [stmt] at h
    split at h <;> simp_all
  | cons t rest =>
    have read : ∀ {k}, t.kind = k → (c.expect k).Gives t (c.past t rest) :=
      fun kind => Cursor.expect_gives.mpr ⟨rest, ahead, kind, rfl⟩
    rw [stmt_gives_of_ahead ahead] at h
    split at h
    · rename_i kind
      simp only [printRest, Parsed.bind_gives, Parsed.ok_gives, exists_prop] at h
      obtain ⟨e, c₁, given, rfl, rfl⟩ := h
      exact .print (read kind) given
    · rename_i kind
      simp only [printRest, Parsed.bind_gives, Parsed.ok_gives, exists_prop] at h
      obtain ⟨e, c₁, given, rfl, rfl⟩ := h
      exact .println (read kind) given
    · rw [branchStmt] at h
      simp only [Parsed.bind_gives, Parsed.ok_gives, exists_prop] at h
      obtain ⟨t, c₁, r₁, test, c₂, r₂, t', c₃, r₃, b, c₄, r₄, eb, c₅, r₅, close, c₆, r₆, rfl,
        rfl⟩ := h
      exact .branch r₁ r₂ r₃ r₄ r₅ r₆
    · rw [loopStmt] at h
      simp only [Parsed.bind_gives, Parsed.ok_gives, exists_prop] at h
      obtain ⟨t, c₁, r₁, test, c₂, r₂, t', c₃, r₃, b, c₄, r₄, close, c₅, r₅, rfl, rfl⟩ := h
      exact .loop r₁ r₂ r₃ r₄ r₅
    · rw [countStmt] at h
      obtain ⟨t, c₁, r₁, h⟩ := Parsed.bind_gives.mp h
      obtain ⟨counter, c₂, r₂, h⟩ := Parsed.bind_gives.mp h
      obtain ⟨t₂, c₃, r₃, h⟩ := Parsed.bind_gives.mp h
      obtain ⟨start, c₄, r₄, h⟩ := Parsed.bind_gives.mp h
      obtain ⟨t₄, c₅, r₅, h⟩ := Parsed.bind_gives.mp h
      obtain ⟨stop, c₆, r₆, h⟩ := Parsed.bind_gives.mp h
      obtain ⟨step, c₇, r₇, h⟩ := Parsed.bind_gives.mp h
      obtain ⟨t₇, c₈, r₈, h⟩ := Parsed.bind_gives.mp h
      obtain ⟨b, c₉, r₉, h⟩ := Parsed.bind_gives.mp h
      obtain ⟨close, c₁₀, r₁₀, last⟩ := Parsed.bind_gives.mp h
      cases counter with
      | name var line =>
        obtain ⟨rfl, rfl⟩ := Parsed.ok_gives.mp last
        exact .count r₁ r₂ r₃ r₄ r₅ r₆ r₇ r₈ r₉ r₁₀
      | _ => simp [countStmtOf] at last
    · rw [funcStmt] at h
      simp only [Parsed.bind_gives, Parsed.ok_gives, exists_prop] at h
      obtain ⟨t, c₁, r₁, name, c₂, r₂, t₂, c₃, r₃, ps, c₄, r₄, t₄, c₅, r₅, b, c₆, r₆, close, c₇,
        r₇, rfl, rfl⟩ := h
      exact .func r₁ r₂ r₃ r₄ r₅ r₆ r₇
    · rw [retStmt] at h
      simp only [Parsed.bind_gives, Parsed.ok_gives, exists_prop] at h
      obtain ⟨t, c₁, r₁, e, c₂, r₂, rfl, rfl⟩ := h
      exact .ret r₁ r₂
    · rw [localStmt] at h
      simp only [Parsed.bind_gives, Parsed.ok_gives, exists_prop] at h
      obtain ⟨t, c₁, r₁, target, c₂, r₂, t₂, c₃, r₃, e, c₄, r₄, rfl, rfl⟩ := h
      exact .assignLocal r₁ r₂ r₃ r₄
    · refine plainStmt_gives (by simp [ahead]) ?_ h
      rw [Cursor.before_of_ahead ahead]
      intro mem
      simp only [statementWords, List.mem_cons, List.not_mem_nil, or_false] at mem
      rcases mem with kind | kind | kind | kind | kind | kind | kind | kind <;>
        contradiction

theorem stmt_gives_of_reads (h : ReadsStmt c s c') : (stmt c).Gives s c' := by
  -- A word that has been read decides the rule.
  have word : ∀ {k t c₁}, (c.expect k).Gives t c₁ →
      ∃ rest, c.ahead = t :: rest ∧ t.kind = k ∧ c₁ = c.past t rest := Cursor.expect_gives.mp
  cases h with
  | print read given =>
    obtain ⟨rest, ahead, kind, rfl⟩ := word read
    rw [stmt_gives_of_ahead ahead]
    simp only [kind, printRest, Parsed.bind_gives]
    exact ⟨_, _, given, by simp⟩
  | println read given =>
    obtain ⟨rest, ahead, kind, rfl⟩ := word read
    rw [stmt_gives_of_ahead ahead]
    simp only [kind, printRest, Parsed.bind_gives]
    exact ⟨_, _, given, by simp⟩
  | branch r₁ r₂ r₃ r₄ r₅ r₆ =>
    obtain ⟨rest, ahead, kind, -⟩ := word r₁
    rw [stmt_gives_of_ahead ahead]
    simp only [kind]
    rw [branchStmt]
    refine Parsed.bind_gives.mpr ⟨_, _, r₁, Parsed.bind_gives.mpr ⟨_, _, r₂, ?_⟩⟩
    refine Parsed.bind_gives.mpr ⟨_, _, r₃, Parsed.bind_gives.mpr ⟨_, _, r₄, ?_⟩⟩
    exact Parsed.bind_gives.mpr ⟨_, _, r₅, Parsed.bind_gives.mpr ⟨_, _, r₆, by simp⟩⟩
  | loop r₁ r₂ r₃ r₄ r₅ =>
    obtain ⟨rest, ahead, kind, -⟩ := word r₁
    rw [stmt_gives_of_ahead ahead]
    simp only [kind]
    rw [loopStmt]
    refine Parsed.bind_gives.mpr ⟨_, _, r₁, Parsed.bind_gives.mpr ⟨_, _, r₂, ?_⟩⟩
    refine Parsed.bind_gives.mpr ⟨_, _, r₃, Parsed.bind_gives.mpr ⟨_, _, r₄, ?_⟩⟩
    exact Parsed.bind_gives.mpr ⟨_, _, r₅, by simp⟩
  | count r₁ r₂ r₃ r₄ r₅ r₆ r₇ r₈ r₉ r₁₀ =>
    obtain ⟨rest, ahead, kind, -⟩ := word r₁
    rw [stmt_gives_of_ahead ahead]
    simp only [kind]
    rw [countStmt]
    refine Parsed.bind_gives.mpr ⟨_, _, r₁, Parsed.bind_gives.mpr ⟨_, _, r₂, ?_⟩⟩
    refine Parsed.bind_gives.mpr ⟨_, _, r₃, Parsed.bind_gives.mpr ⟨_, _, r₄, ?_⟩⟩
    refine Parsed.bind_gives.mpr ⟨_, _, r₅, Parsed.bind_gives.mpr ⟨_, _, r₆, ?_⟩⟩
    refine Parsed.bind_gives.mpr ⟨_, _, r₇, Parsed.bind_gives.mpr ⟨_, _, r₈, ?_⟩⟩
    exact Parsed.bind_gives.mpr ⟨_, _, r₉, Parsed.bind_gives.mpr ⟨_, _, r₁₀, by
      simp [countStmtOf]⟩⟩
  | func r₁ r₂ r₃ r₄ r₅ r₆ r₇ =>
    obtain ⟨rest, ahead, kind, -⟩ := word r₁
    rw [stmt_gives_of_ahead ahead]
    simp only [kind]
    rw [funcStmt]
    refine Parsed.bind_gives.mpr ⟨_, _, r₁, Parsed.bind_gives.mpr ⟨_, _, r₂, ?_⟩⟩
    refine Parsed.bind_gives.mpr ⟨_, _, r₃, Parsed.bind_gives.mpr ⟨_, _, r₄, ?_⟩⟩
    refine Parsed.bind_gives.mpr ⟨_, _, r₅, Parsed.bind_gives.mpr ⟨_, _, r₆, ?_⟩⟩
    exact Parsed.bind_gives.mpr ⟨_, _, r₇, by simp⟩
  | ret r₁ r₂ =>
    obtain ⟨rest, ahead, kind, -⟩ := word r₁
    rw [stmt_gives_of_ahead ahead]
    simp only [kind]
    exact Parsed.bind_gives.mpr ⟨_, _, r₁, Parsed.bind_gives.mpr ⟨_, _, r₂, by simp⟩⟩
  | assignLocal r₁ r₂ r₃ r₄ =>
    obtain ⟨rest, ahead, kind, -⟩ := word r₁
    rw [stmt_gives_of_ahead ahead]
    simp only [kind]
    refine Parsed.bind_gives.mpr ⟨_, _, r₁, Parsed.bind_gives.mpr ⟨_, _, r₂, ?_⟩⟩
    exact Parsed.bind_gives.mpr ⟨_, _, r₃, Parsed.bind_gives.mpr ⟨_, _, r₄, by simp⟩⟩
  | assign nonempty words r₁ r₂ r₃ =>
    rw [stmt_gives_plain nonempty words]
    have after := exprAfter?_gives.mpr (.inl ⟨_, _, _, r₂, r₃, rfl⟩)
    exact Parsed.bind_gives.mpr ⟨_, _, r₁, Parsed.bind_gives.mpr ⟨_, _, after, by simp⟩⟩
  | call nonempty words r₁ before =>
    rw [stmt_gives_plain nonempty words]
    have after := exprAfter?_gives.mpr (.inr ⟨before, rfl, rfl⟩)
    exact Parsed.bind_gives.mpr ⟨_, _, r₁, Parsed.bind_gives.mpr ⟨_, _, after, by
      simp [callStmt]⟩⟩

theorem stmt_gives : (stmt c).Gives s c' ↔ ReadsStmt c s c' :=
  ⟨readsStmt_of_gives, stmt_gives_of_reads⟩

/-! ### Blocks -/

theorem endsBlock_iff : endsBlock c = true ↔
    c.ahead = [] ∨ c.nextIs .kwElse = true ∨ c.nextIs .kwEnd = true := by
  simp [endsBlock, or_assoc]

theorem stmts_gives {ss : List Stmt} : (stmts c).Gives ss c' ↔
    (endsBlock c = true ∧ [] = ss ∧ c = c') ∨
    (endsBlock c = false ∧
      ∃ s c₁ others, (stmt c).Gives s c₁ ∧ (stmts c₁).Gives others c' ∧ s :: others = ss) := by
  rw [stmts]
  split
  · rename_i ends
    simp [ends]
  · rename_i goesOn
    rw [Parsed.bind_gives]
    simp only [Parsed.weaken_gives, Parsed.map_gives]
    constructor
    · rintro ⟨s, c₁, given, others, more, rfl⟩
      exact .inr ⟨Bool.eq_false_iff.mpr goesOn, s, c₁, others, given, more, rfl⟩
    · rintro (⟨ends, -⟩ | ⟨-, s, c₁, others, given, more, rfl⟩)
      · exact absurd ends goesOn
      · exact ⟨s, c₁, given, others, more, rfl⟩

theorem block_gives : (block c).Gives b c' ↔
    ∃ ss t, (stmts c).Gives ss c' ∧ c'.previous? = some t ∧ .mk ss t.line = b := by
  rw [block, Parsed.bind_gives]
  constructor
  · rintro ⟨ss, c₁, given, last⟩
    split at last
    · simp at last
    · rename_i t prev
      obtain ⟨rfl, rfl⟩ := Parsed.ok_gives.mp last
      exact ⟨ss, t, given, prev, rfl⟩
  · rintro ⟨ss, t, given, prev, rfl⟩
    refine ⟨ss, c', given, ?_⟩
    split <;> simp_all

end ScriptLang.Parse
