import Mathlib
import ScriptLang.Proofs.Parse.BindingRules
import ScriptLang.Proofs.Token.Segments

/-!
Parsing by binding powers, step by step.

A step starts an operand, reads an operator, or hands an expression to what it is read for. Nothing
bounds the rounds of a chain of operators here: a round at a token that has a power and is no
operator reads nothing and leads to the same round again. `parse` finds out such rounds and gives up
(`parse_follows`). Steps that read tokens, close expressions or fail come to an end
(`State.cost_step_lt`), so the parser runs for ever exactly if it comes to a round that waits. Among
the tokens of a source text only the name `neg` makes it wait (`waits_iff_atNeg`).
-/

namespace ScriptLang.Parse.Binding

/-- What an expression is read for. -/
inductive Purpose where
  /-- It stands in parentheses. -/
  | group
  /-- It is the operand of a sign. -/
  | sign (op : Token)
  /-- It is the right operand of an operator. -/
  | right (op : Token) (left : Operand)

/-- An expression that waits for one inside it. -/
structure Pending where
  purpose : Purpose
  /-- The bound on the powers in the expression that waits. -/
  bound : Int

/-- A state of the parser. -/
inductive State where
  /-- An expression starts. -/
  | start (bound : Int) (c : Cursor) (pending : List Pending)
  /-- A round of a chain: an operator may follow an operand. -/
  | round (bound : Int) (left : Operand) (c : Cursor) (pending : List Pending)
  | done (result : Except ParseError Operand) (c : Cursor)

namespace State

/-- Uses an expression for what it was read for. -/
def resume (p : Pending) (value : Operand) (c : Cursor) (pending : List Pending) : State :=
  match p.purpose with
  | .group =>
    match c.expect .rparen with
    | .error e c' => .done (.error e) c'
    | .ok close c' _ =>
      match value with
      | some e => .round p.bound (some (.group e close.line)) c' pending
      | none => .done (.error .noOperand) c'
  | .sign op =>
    match value with
    | some e => .round p.bound (some (.unary op e op.line)) c pending
    | none => .done (.error .noOperand) c
  | .right op left =>
    match left, value with
    | some l, some r => .round p.bound (some (.binary op l r op.line)) c pending
    | _, _ => .done (.error .noOperand) c

/-- An expression is complete. -/
def complete (value : Operand) (c : Cursor) : List Pending → State
  | [] => .done (.ok value) c
  | p :: pending => resume p value c pending

/-- One step of the parser. -/
def step : State → State
  | .start bound c pending =>
    match c.ahead with
    | [] => .round bound none c pending
    | t :: rest =>
      match t.kind with
      | .lparen => .start 0 (c.past t rest) (⟨.group, bound⟩ :: pending)
      | .minus => .start signPower (c.past t rest) (⟨.sign t, bound⟩ :: pending)
      | _ =>
        match number? c with
        | .ok value c' _ => .round bound value c' pending
        | .error e c' => .done (.error e) c'
  | .round bound left c pending =>
    match c.ahead with
    | [] => complete left c pending
    | t :: rest =>
      match power? t.lexeme with
      | none => .done (.error (.noPower t.lexeme)) c
      | some power =>
        if bound < power then
          if isOperator t.kind then
            .start (rightPower t power) (c.past t rest) (⟨.right t left, bound⟩ :: pending)
          else .round bound none c pending
        else complete left c pending
  | .done result c => .done result c

/-- The state after a number of steps. -/
def after : Nat → State → State
  | 0, s => s
  | n + 1, s => after n (step s)

/-- The state that parsing a list of tokens begins in. -/
def ofTokens (tokens : List Token) : State := .start 0 (Cursor.ofList tokens) []

/-- Parsing has come to a result. -/
def Finished : State → Prop
  | .done _ _ => True
  | _ => False

/-- A round at a token that binds enough and is not read. -/
def Waits : State → Prop
  | .round bound _ c _ => ∃ t rest power, c.ahead = t :: rest ∧ power? t.lexeme = some power ∧
      bound < power ∧ isOperator t.kind = false
  | _ => False

/-! ### Runs -/

theorem after_add (m n : Nat) (s : State) : after (m + n) s = after n (after m s) := by
  induction m generalizing s with
  | zero => rw [Nat.zero_add]; rfl
  | succ m ih => rw [Nat.add_right_comm, after, ih, after]

theorem after_succ (n : Nat) (s : State) : after (n + 1) s = step (after n s) :=
  after_add n 1 s

/-- One state leads to another. -/
def Leads (s s' : State) : Prop := ∃ n, after n s = s'

theorem Leads.refl (s : State) : Leads s s := ⟨0, rfl⟩

theorem Leads.trans {s₁ s₂ s₃ : State} (h : Leads s₁ s₂) (h' : Leads s₂ s₃) : Leads s₁ s₃ := by
  obtain ⟨m, rfl⟩ := h
  obtain ⟨n, rfl⟩ := h'
  exact ⟨m + n, after_add m n s₁⟩

theorem leads_step {s s' : State} (h : step s = s') : Leads s s' := ⟨1, h⟩

theorem step_of_finished {s : State} (h : s.Finished) : step s = s := by
  cases s with
  | done result c => rfl
  | start | round => exact h.elim

theorem after_of_finished {s : State} (h : s.Finished) (n : Nat) : after n s = s := by
  induction n with
  | zero => rfl
  | succ n ih => rw [after, step_of_finished h, ih]

/-- A round that waits leads to itself, but for the operand, which is lost. -/
theorem step_of_waits {bound : Int} {left : Operand} {c : Cursor} {pending : List Pending}
    (h : (round bound left c pending).Waits) :
    step (.round bound left c pending) = .round bound none c pending := by
  obtain ⟨t, rest, power, ahead, found, lt, no⟩ := h
  simp only [step, ahead, found, if_pos lt, no]
  rfl

/-- A round that waits is made again and again. -/
theorem after_of_waits {bound : Int} {left : Operand} {c : Cursor} {pending : List Pending}
    (h : (round bound left c pending).Waits) (n : Nat) :
    after (n + 1) (.round bound left c pending) = .round bound none c pending := by
  induction n with
  | zero => exact step_of_waits h
  | succ n ih =>
    rw [after_succ, ih]
    exact step_of_waits h

theorem Waits.after {s : State} (h : s.Waits) (n : Nat) : (after n s).Waits := by
  induction n generalizing s with
  | zero => exact h
  | succ n ih =>
    cases s with
    | round bound left c pending =>
      rw [State.after, step_of_waits h]
      exact ih h
    | start | done => exact h.elim

/-- A run that has come to a result never waits. -/
theorem not_waits_of_finished {s : State} {m n : Nat} (finished : (after m s).Finished) :
    ¬ (after n s).Waits := by
  intro waits
  have waits' := waits.after m
  rw [← after_add, Nat.add_comm, after_add, after_of_finished finished] at waits'
  cases last : after m s with
  | done result c => exact (last ▸ waits').elim
  | start | round => exact (last ▸ finished).elim

/-! ### The end of a run -/

/-- A bound on the steps from a state on: two for each expression that waits and four for each
token, which may open an expression, close it and be the end of another. -/
def cost : State → Nat
  | .start _ c pending => 4 * c.size + 2 * pending.length + 2
  | .round _ _ c pending => 4 * c.size + 2 * pending.length + 1
  | .done _ _ => 0

theorem cost_resume_lt (p : Pending) (value : Operand) (c : Cursor) (pending : List Pending) :
    (resume p value c pending).cost < 4 * c.size + 2 * (p :: pending).length + 1 := by
  unfold resume
  split
  · split
    · simp [cost]
    · rename_i close c' shorter _
      split
      · simp only [cost, List.length_cons]
        omega
      · simp [cost]
  · split
    · simp only [cost, List.length_cons]
      omega
    · simp [cost]
  · split
    · simp only [cost, List.length_cons]
      omega
    · simp [cost]

theorem cost_complete_lt (value : Operand) (c : Cursor) (pending : List Pending) :
    (complete value c pending).cost < 4 * c.size + 2 * pending.length + 1 := by
  cases pending with
  | nil => simp [complete, cost]
  | cons p pending => exact cost_resume_lt p value c pending

/-- A step that does not wait comes nearer to the end. -/
theorem cost_step_lt {s : State} (goesOn : ¬ s.Finished) (moves : ¬ s.Waits) :
    (step s).cost < s.cost := by
  cases s with
  | done result c => exact absurd trivial goesOn
  | start bound c pending =>
    rw [step]
    split
    · simp [cost]
    · rename_i t rest ahead
      have shorter := Cursor.size_past_lt ahead
      split
      · simp only [cost, List.length_cons]
        omega
      · simp only [cost, List.length_cons]
        omega
      · split
        · rename_i value c' shorter' _
          simp only [cost]
          omega
        · simp [cost]
  | round bound left c pending =>
    rw [step]
    split
    · exact cost_complete_lt left c pending
    · rename_i t rest ahead
      have shorter := Cursor.size_past_lt ahead
      split
      · simp [cost]
      · rename_i power found
        split
        · rename_i lt
          split
          · simp only [cost, List.length_cons]
            omega
          · rename_i no
            exact absurd ⟨t, rest, power, ahead, found, lt, by simpa using no⟩ moves
        · exact cost_complete_lt left c pending

/-- A run that never waits comes to a result. -/
theorem finished_after_cost {s : State} (moves : ∀ n, ¬ (after n s).Waits) {n : Nat}
    (enough : s.cost ≤ n) : (after n s).Finished := by
  induction n generalizing s with
  | zero =>
    cases s with
    | done result c => trivial
    | start | round => simp [cost] at enough
  | succ n ih =>
    by_cases finished : s.Finished
    · rw [after_of_finished finished]
      exact finished
    · have less := cost_step_lt finished (moves 0)
      exact ih (fun m => moves (m + 1)) (by omega)

/-! ### The parser and its steps -/

/-- A state does what a result says: it goes on with the value, it fails with the error, or it comes
to wait. -/
inductive Follows (s : State) (go : Operand → Cursor → State) {n : Nat} :
    Parsed Operand n → Prop where
  | value {v c h} : Leads s (go v c) → Follows s go (.ok v c h)
  | error {e c} : e ≠ .stalled → Leads s (.done (.error e) c) → Follows s go (.error e c)
  | stalled {s' c} : Leads s s' → s'.Waits → Follows s go (.error .stalled c)

variable {s s' : State} {go go' : Operand → Cursor → State} {m n : Nat} {r : Parsed Operand m}
  {b : Int} {left : Operand} {c : Cursor} {p : List Pending}

theorem Follows.weaken (h : Follows s go r) {le : m ≤ n} : Follows s go (r.weaken le) := by
  cases h with
  | value leads => exact .value leads
  | error ne leads => exact .error ne leads
  | stalled leads waits => exact .stalled leads waits

theorem Follows.before (leads : Leads s s') (h : Follows s' go r) : Follows s go r := by
  cases h with
  | value leads' => exact .value (leads.trans leads')
  | error ne leads' => exact .error ne (leads.trans leads')
  | stalled leads' waits => exact .stalled (leads.trans leads') waits

theorem Follows.bind {f : Operand → (c : Cursor) → c.size < m → Parsed Operand n}
    (h : Follows s go r)
    (rest : ∀ v c shorter, r = .ok v c shorter → Follows (go v c) go' (f v c shorter)) :
    Follows s go' (r.bind f) := by
  cases h with
  | @value v c shorter leads => exact (rest v c shorter rfl).before leads
  | error ne leads => exact .error ne leads
  | stalled leads waits => exact .stalled leads waits

theorem expect_ne_stalled {k : Kind} {e : ParseError} {c' : Cursor}
    (failed : c.expect k = .error e c') : e ≠ .stalled := by
  rintro rfl
  unfold Cursor.expect at failed
  split at failed
  · split at failed <;> cases failed
  · split at failed <;> cases failed

theorem number?_ne_stalled {e : ParseError} {c' : Cursor} (failed : number? c = .error e c') :
    e ≠ .stalled := by
  rintro rfl
  unfold number? at failed
  split at failed
  · cases failed
  · split at failed
    · split at failed <;> cases failed
    · split at failed <;> cases failed
    · cases failed

/-- An operator that is read leaves fewer tokens. -/
theorem next_shorter {t : Token} {rest : List Token} {v : Operand} {c' : Cursor}
    {h : c'.size < c.size + 1} (ahead : c.ahead = t :: rest) (operator : isOperator t.kind = true)
    (given : next left c = .ok v c' h) : c'.size < c.size := by
  have gives : (next left c).Gives v c' := ⟨h, given⟩
  rw [next] at gives
  split at gives
  · simp_all
  · rename_i t' rest' ahead'
    rw [ahead] at ahead'
    cases ahead'
    rw [if_pos operator] at gives
    split at gives
    · simp at gives
    · obtain ⟨right, c₁, taken, last⟩ := Parsed.bind_gives.mp gives
      have shorter := shorter_of_taken ahead taken (Nat.le_refl _)
      split at last
      · rwa [← (Parsed.ok_gives.mp last).2]
      · simp at last

/-- What is no operator is not read. -/
theorem next_of_not_operator {t : Token} {rest : List Token} (ahead : c.ahead = t :: rest)
    (no : isOperator t.kind = false) : next left c = .ok none c (Nat.lt_succ_self _) := by
  rw [next]
  split
  · rfl
  · rename_i t' rest' ahead'
    rw [ahead] at ahead'
    cases ahead'
    rw [if_neg (by simp [no])]

mutual
theorem first_follows (c : Cursor) (b : Int) (p : List Pending) :
    Follows (.start b c p) (fun v c' => .round b v c' p) (first c) := by
  rw [first]
  split
  · rename_i ended
    exact .value (leads_step (by simp only [step, ended]))
  · rename_i t rest ahead
    have shorter := Cursor.size_past_lt ahead
    split
    · rename_i kind
      have opened : step (.start b c p) = .start 0 (c.past t rest) (⟨.group, b⟩ :: p) := by
        simp only [step, ahead, kind]
      refine (expr_follows (c.past t rest) 0 (⟨.group, b⟩ :: p)).bind ?_ |>.before
        (leads_step opened)
      intro inner c₁ h₁ _
      rw [complete, resume]
      cases closed : c₁.expect .rparen with
      | error e c₂ => exact .error (expect_ne_stalled closed) (.refl _)
      | ok close c₂ h₂ =>
        cases inner with
        | none => exact .error (by simp) (.refl _)
        | some e => exact .value (.refl _)
    · rename_i kind
      have opened : step (.start b c p) = .start signPower (c.past t rest) (⟨.sign t, b⟩ :: p) := by
        simp only [step, ahead, kind]
      refine (expr_follows (c.past t rest) signPower (⟨.sign t, b⟩ :: p)).bind ?_ |>.before
        (leads_step opened)
      intro operand c₁ h₁ _
      rw [complete, resume]
      cases operand with
      | none => exact .error (by simp) (.refl _)
      | some e => exact .value (.refl _)
    · cases found : number? c with
      | ok value c' h => exact .value (leads_step (by simp only [step, ahead, found]))
      | error e c' =>
        exact .error (number?_ne_stalled found) (leads_step (by simp only [step, ahead, found]))
termination_by (c.size, 0)

/-- An operator and its right operand. -/
theorem next_follows (c : Cursor) (b : Int) (left : Operand) (p : List Pending) {t : Token}
    {rest : List Token} {power : Int} (ahead : c.ahead = t :: rest)
    (found : power? t.lexeme = some power) (lt : b < power) (operator : isOperator t.kind = true) :
    Follows (.round b left c p) (fun v c' => .round b v c' p) (next left c) := by
  have taken : step (.round b left c p) =
      .start (rightPower t power) (c.past t rest) (⟨.right t left, b⟩ :: p) := by
    simp only [step, ahead, found, if_pos lt, if_pos operator]
  have shorter := Cursor.size_past_lt ahead
  rw [next]
  split
  · simp_all
  · rename_i t' rest' ahead'
    rw [ahead] at ahead'
    cases ahead'
    rw [if_pos operator]
    split
    · simp_all
    · rename_i power' found'
      rw [found] at found'
      cases found'
      refine (expr_follows (c.past t rest) (rightPower t power) (⟨.right t left, b⟩ :: p)).bind ?_
        |>.before (leads_step taken)
      intro right c₁ h₁ _
      rw [complete, resume]
      cases left with
      | none => exact .error (by simp) (.refl _)
      | some l =>
        cases right with
        | none => exact .error (by simp) (.refl _)
        | some r => exact .value (.refl _)
termination_by (c.size, 0)

theorem chain_follows (c : Cursor) (b : Int) (left : Operand) (p : List Pending) :
    Follows (.round b left c p) (fun v c' => complete v c' p) (chain b left c) := by
  rw [chain]
  split
  · rename_i ended
    exact .value (leads_step (by simp only [step, ended]))
  · rename_i t rest ahead
    split
    · rename_i none
      exact .error (by simp) (leads_step (by simp only [step, ahead, none]))
    · rename_i power found
      split
      · rename_i lt
        cases operator : isOperator t.kind with
        | true =>
          refine (next_follows c b left p ahead found lt operator).bind ?_
          intro left' c₁ h₁ given
          have shorter := next_shorter ahead operator given
          rw [dif_pos shorter]
          exact (chain_follows c₁ b left' p).weaken
        | false =>
          rw [next_of_not_operator ahead operator, Parsed.bind, dif_neg (Nat.lt_irrefl _)]
          exact .stalled (.refl _) ⟨t, rest, power, ahead, found, lt, operator⟩
      · rename_i le
        exact .value (leads_step (by simp only [step, ahead, found, if_neg le]))
termination_by (c.size, 1)

theorem expr_follows (c : Cursor) (b : Int) (p : List Pending) :
    Follows (.start b c p) (fun v c' => complete v c' p) (expr b c) := by
  rw [expr]
  refine (first_follows c b p).bind ?_
  intro left c₁ h₁ _
  exact (chain_follows c₁ b left p).weaken
termination_by (c.size, 2)
decreasing_by
  · exact Prod.Lex.right _ (by decide)
  · exact lex_of_lt_succ h₁ (by decide)
end

/-- The steps on a list of tokens come to the result of `parse`, if it is one. -/
theorem parse_follows (tokens : List Token) :
    Follows (ofTokens tokens) (fun v c => .done (.ok v) c) (parse tokens) :=
  expr_follows (Cursor.ofList tokens) 0 []

/-! ### Tokens of a source text

Here the bounds are never negative, so a parenthesis, whose power is zero, ends a chain. -/

/-- The bounds are powers, and the tokens left are among the given ones. -/
structure Fits (tokens : List Token) (b : Int) (c : Cursor) (p : List Pending) : Prop where
  bound : 0 ≤ b
  ahead : c.ahead ⊆ tokens
  pending : ∀ q ∈ p, 0 ≤ q.bound

/-- A state of parsing the given tokens. -/
def Proper (tokens : List Token) : State → Prop
  | .start b c p => Fits tokens b c p
  | .round b _ c p => Fits tokens b c p
  | .done _ _ => True

variable {tokens : List Token} {t : Token} {rest : List Token}

theorem Fits.past (fits : Fits tokens b c p) (ahead : c.ahead = t :: rest) :
    (c.past t rest).ahead ⊆ tokens := by
  intro t' mem
  refine fits.ahead ?_
  rw [ahead]
  exact List.mem_cons_of_mem _ mem

theorem proper_complete (value : Operand) (fits : Fits tokens b c p) :
    (complete value c p).Proper tokens := by
  cases p with
  | nil => trivial
  | cons q p =>
    have bound := fits.pending q List.mem_cons_self
    have pending : ∀ q' ∈ p, 0 ≤ q'.bound := fun q' mem =>
      fits.pending q' (List.mem_cons_of_mem _ mem)
    rw [complete, resume]
    split
    · split
      · trivial
      · rename_i close c' shorter closed
        obtain ⟨rest, ahead, -, rfl⟩ := Cursor.expect_gives.mp ⟨shorter, closed⟩
        split
        · exact ⟨bound, fits.past ahead, pending⟩
        · trivial
    · split
      · exact ⟨bound, fits.ahead, pending⟩
      · trivial
    · split
      · exact ⟨bound, fits.ahead, pending⟩
      · trivial

theorem Fits.number? (fits : Fits tokens b c p) {v : Operand} {c' : Cursor}
    {h : c'.size < c.size + 1} (read : Binding.number? c = .ok v c' h) : Fits tokens b c' p := by
  unfold Binding.number? at read
  split at read
  · cases read
    exact fits
  · rename_i t rest ahead
    have taken : Fits tokens b (c.past t rest) p := ⟨fits.bound, fits.past ahead, fits.pending⟩
    split at read
    · split at read
      · cases read
        exact taken
      · cases read
    · split at read
      · cases read
        exact taken
      · cases read
    · cases read
      exact fits

theorem rightPower_nonneg {power : Int} (lt : 0 < power) : 0 ≤ rightPower t power := by
  unfold rightPower
  split <;> omega

theorem Proper.step {s : State} (proper : s.Proper tokens) : (step s).Proper tokens := by
  cases s with
  | done result c => trivial
  | start b c p =>
    have fits : Fits tokens b c p := proper
    have wait : ∀ purpose, ∀ q ∈ (⟨purpose, b⟩ : Pending) :: p, 0 ≤ q.bound := fun _ =>
      List.forall_mem_cons.mpr ⟨fits.bound, fits.pending⟩
    rw [State.step]
    split
    · exact fits
    · rename_i t rest ahead
      split
      · exact ⟨Int.le_refl 0, fits.past ahead, wait _⟩
      · exact ⟨by decide, fits.past ahead, wait _⟩
      · split
        · rename_i read
          exact fits.number? read
        · trivial
  | round b left c p =>
    have fits : Fits tokens b c p := proper
    have bound := fits.bound
    rw [State.step]
    split
    · exact proper_complete left fits
    · rename_i t rest ahead
      split
      · trivial
      · split
        · rename_i lt
          split
          · exact ⟨rightPower_nonneg (by omega), fits.past ahead,
              List.forall_mem_cons.mpr ⟨bound, fits.pending⟩⟩
          · exact fits
        · exact proper_complete left fits

theorem Proper.after {s : State} (proper : s.Proper tokens) (n : Nat) :
    (after n s).Proper tokens := by
  induction n generalizing s with
  | zero => exact proper
  | succ n ih => exact ih proper.step

theorem proper_ofTokens (tokens : List Token) : (ofTokens tokens).Proper tokens :=
  ⟨Int.le_refl 0, List.Subset.refl tokens, by simp⟩

/-! ### The name that is a power -/

/-- The name `neg`, which is the word for signs in the table of powers. -/
def IsNeg (t : Token) : Prop := t.kind = .identifier ∧ t.lexeme = "neg"

/-- A round at the name `neg`, under a bound that the power of a sign exceeds. -/
def AtNeg : State → Prop
  | .round b _ c _ => b < signPower ∧ ∃ t rest, c.ahead = t :: rest ∧ IsNeg t
  | _ => False

theorem isNameStart_of_identifier {k : Kind} {cs : List Char} (spells : Spells k cs)
    (kind : k = .identifier) : ∃ d ds, cs = d :: ds ∧ Scanner.isNameStart d = true := by
  cases spells.scanned with
  | @single d k found =>
    subst kind
    unfold Kind.single? at found
    split at found <;> cases found
  | @alone d k k' found =>
    subst kind
    unfold Kind.withEquals? at found
    split at found <;> cases found
  | @paired d k k' found =>
    subst kind
    unfold Kind.withEquals? at found
    split at found <;> cases found
  | minus | string | integer | float => cases kind
  | @word d ds start => exact ⟨d, ds, rfl, start⟩

/-- Of the names only `neg` has a power. -/
theorem neg_of_identifier {power : Int} (spelled : t.Spelled) (kind : t.kind = .identifier)
    (found : power? t.lexeme = some power) : t.lexeme = "neg" ∧ power = signPower := by
  obtain ⟨d, ds, chars, start⟩ := isNameStart_of_identifier spelled kind
  have unlike : ∀ sign : String, t.lexeme = sign → sign.toList.head? = some d := by
    rintro sign rfl
    rw [chars]
    rfl
  have noName : ∀ e ∈ Text.marks, e ≠ d := by
    rintro e mem rfl
    rw [(Text.marks_plain e mem).2] at start
    cases start
  unfold power? at found
  split at found
  case h_2 lexeme =>
      cases found
      exact ⟨lexeme, rfl⟩
  case h_9 => cases found
  all_goals
    rename_i lexeme
    have head := unlike _ lexeme
    exact absurd (Option.some.inj head) (noName _ (by decide))

theorem isOperator_of_powerOf? {k : Kind} {power : Int} (h : powerOf? k = some power)
    (pos : 0 < power) : isOperator k = true := by
  unfold powerOf? at h
  split at h
  case h_6 | h_7 =>
    cases h
    exact absurd pos (by decide)
  case h_8 => cases h
  all_goals rfl

/-- What binds enough is an operator or the name `neg`. -/
theorem operator_or_neg {power : Int} (spelled : t.Spelled) (found : power? t.lexeme = some power)
    (pos : 0 < power) : isOperator t.kind = true ∨ (IsNeg t ∧ power = signPower) := by
  rcases kind_of_power? spelled found with sign | name
  · exact .inl (isOperator_of_powerOf? sign pos)
  · obtain ⟨lexeme, power⟩ := neg_of_identifier spelled name found
    exact .inr ⟨⟨name, lexeme⟩, power⟩

theorem IsNeg.not_operator (neg : IsNeg t) : isOperator t.kind = false := by
  rw [neg.1]
  rfl

/-- Among the tokens of a source text only the name `neg` makes the parser wait. -/
theorem waits_iff_atNeg {s : State} (spelled : ∀ t ∈ tokens, t.Spelled) (proper : s.Proper tokens) :
    s.Waits ↔ s.AtNeg := by
  cases s with
  | start | done => exact Iff.rfl
  | round b left c p =>
    have fits : Fits tokens b c p := proper
    have bound := fits.bound
    constructor
    · rintro ⟨t, rest, power, ahead, found, lt, no⟩
      have mem : t ∈ tokens := fits.ahead (ahead ▸ List.mem_cons_self)
      rcases operator_or_neg (spelled t mem) found (by omega) with operator | ⟨neg, rfl⟩
      · rw [operator] at no
        cases no
      · exact ⟨lt, t, rest, ahead, neg⟩
    · rintro ⟨lt, t, rest, ahead, neg⟩
      exact ⟨t, rest, signPower, ahead, by rw [neg.2]; rfl, lt, neg.not_operator⟩

/-- A round at a token that binds enough reads it, or the token is the name `neg` and the round
waits. -/
theorem step_of_lt (spelled : ∀ t ∈ tokens, t.Spelled) (fits : Fits tokens b c p)
    (ahead : c.ahead = t :: rest) {power : Int} (found : power? t.lexeme = some power)
    (lt : b < power) :
    (∃ b' p', step (.round b left c p) = .start b' (c.past t rest) p') ∨
      (IsNeg t ∧ (round b left c p).Waits) := by
  have bound := fits.bound
  have mem : t ∈ tokens := fits.ahead (ahead ▸ List.mem_cons_self)
  rcases operator_or_neg (spelled t mem) found (by omega) with operator | ⟨neg, -⟩
  · left
    exact ⟨rightPower t power, ⟨.right t left, b⟩ :: p,
      by simp only [step, ahead, found, if_pos lt, if_pos operator]⟩
  · exact .inr ⟨neg, t, rest, power, ahead, found, lt, neg.not_operator⟩

/-- The state that a result is. -/
def ofParsed {n : Nat} (r : Parsed Operand n) : State := .done r.toExcept r.cursor

/-- Runs that come to a result come to that of `parse`. -/
theorem after_of_finished_ofTokens {n : Nat} (finished : (after n (ofTokens tokens)).Finished) :
    after n (ofTokens tokens) = ofParsed (parse tokens) := by
  have last : ∀ s', Leads (ofTokens tokens) s' → s'.Finished → after n (ofTokens tokens) = s' := by
    rintro s' ⟨m, rfl⟩ finished'
    rw [← after_of_finished finished m, ← after_add, Nat.add_comm, after_add,
      after_of_finished finished']
  have follows := parse_follows tokens
  cases parsed : parse tokens with
  | ok v c h =>
    rw [parsed] at follows
    cases follows with
    | value leads => exact last _ leads trivial
  | error e c =>
    rw [parsed] at follows
    cases follows with
    | error ne leads => exact last _ leads trivial
    | stalled leads waits =>
      obtain ⟨m, rfl⟩ := leads
      exact absurd waits (not_waits_of_finished finished)

/-- A run comes to wait exactly if `parse` finds that it does. -/
theorem exists_waits_iff :
    (∃ n, (after n (ofTokens tokens)).Waits) ↔ ∃ c, parse tokens = .error .stalled c := by
  have follows := parse_follows tokens
  have ends : ∀ r c', Leads (ofTokens tokens) (.done r c') →
      ¬ ∃ n, (after n (ofTokens tokens)).Waits := by
    rintro r c' ⟨m, last⟩ ⟨n, waits⟩
    exact not_waits_of_finished (m := m) (last ▸ trivial) waits
  cases parsed : parse tokens with
  | ok v c h =>
    rw [parsed] at follows
    cases follows with
    | value leads => exact iff_of_false (ends _ _ leads) (by simp)
  | error e c =>
    rw [parsed] at follows
    cases follows with
    | error ne leads => exact iff_of_false (ends _ _ leads) (by simpa using ne)
    | stalled leads waits =>
      obtain ⟨n, rfl⟩ := leads
      exact iff_of_true ⟨n, waits⟩ ⟨c, rfl⟩

theorem not_atNeg_of_tokens {s : State} (proper : s.Proper tokens)
    (none : ∀ t ∈ tokens, ¬ IsNeg t) : ¬ s.AtNeg := by
  cases s with
  | start | done => exact id
  | round b left c p =>
    rintro ⟨-, t, rest, ahead, neg⟩
    have fits : Fits tokens b c p := proper
    exact none t (fits.ahead (ahead ▸ List.mem_cons_self)) neg

/-- Parsing the tokens of a source text ends exactly if no round is made at the name `neg` under a
bound below the power of a sign. A round at any other token that binds enough reads the token. A run
that ends does so within four steps for each token and two more, with the result of `parse`; the
others are those that `parse` gives up. -/
theorem finishes_iff_never_at_neg {source : String} {tokens : List Token}
    (scanned : tokenize source = .ok tokens) :
    (∀ n b left c p t rest power, after n (ofTokens tokens) = .round b left c p →
      c.ahead = t :: rest → power? t.lexeme = some power → b < power →
      (∃ b' p', after (n + 1) (ofTokens tokens) = .start b' (c.past t rest) p') ∨
      (IsNeg t ∧ ∀ m, after (n + (m + 1)) (ofTokens tokens) = .round b none c p)) ∧
    ((∃ n, (after n (ofTokens tokens)).Finished) ↔ ∀ n, ¬ (after n (ofTokens tokens)).AtNeg) ∧
    ((∀ n, ¬ (after n (ofTokens tokens)).AtNeg) → ∀ n, 4 * tokens.length + 2 ≤ n →
      after n (ofTokens tokens) = ofParsed (parse tokens)) ∧
    ((∃ n, (after n (ofTokens tokens)).AtNeg) ↔ ∃ c, parse tokens = .error .stalled c) ∧
    ((∀ t ∈ tokens, ¬ IsNeg t) → ∀ n, ¬ (after n (ofTokens tokens)).AtNeg) := by
  have spelled := tokens_spelled scanned
  have proper : ∀ n, (after n (ofTokens tokens)).Proper tokens := (proper_ofTokens tokens).after
  have waits : ∀ n, (after n (ofTokens tokens)).Waits ↔ (after n (ofTokens tokens)).AtNeg :=
    fun n => waits_iff_atNeg spelled (proper n)
  have ends : (∀ n, ¬ (after n (ofTokens tokens)).AtNeg) → ∀ n, 4 * tokens.length + 2 ≤ n →
      (after n (ofTokens tokens)).Finished := by
    intro never n enough
    exact finished_after_cost (fun m => (waits m).not.mpr (never m)) enough
  refine ⟨?_, ?_, ?_, ?_, ?_⟩
  · intro n b left c p t rest power now ahead found lt
    have fits := proper n
    rw [now] at fits
    rcases step_of_lt spelled fits ahead found lt with ⟨b', p', taken⟩ | ⟨neg, again⟩
    · exact .inl ⟨b', p', by rw [after_succ, now, taken]⟩
    · exact .inr ⟨neg, fun m => by rw [after_add, now, after_of_waits again]⟩
  · constructor
    · rintro ⟨m, finished⟩ n
      exact (waits n).not.mp (not_waits_of_finished finished)
    · intro never
      exact ⟨_, ends never _ (Nat.le_refl _)⟩
  · intro never n enough
    exact after_of_finished_ofTokens (ends never n enough)
  · rw [← exists_waits_iff]
    exact (exists_congr waits).symm
  · intro none n
    exact not_atNeg_of_tokens (proper n) none

/-- Under the power of a sign the name ends the chain, but under the bound of the whole expression
it does not. -/
theorem finishes_iff_never_at_neg_signed :
    tokenize "-1 neg" = .ok [⟨.minus, "-", 1⟩, ⟨.integer, "1", 1⟩, ⟨.identifier, "neg", 1⟩] ∧
      ¬ ∃ n, (after n (ofTokens [⟨.minus, "-", 1⟩, ⟨.integer, "1", 1⟩,
        ⟨.identifier, "neg", 1⟩])).Finished := by
  have scanned : tokenize "-1 neg" =
      .ok [⟨.minus, "-", 1⟩, ⟨.integer, "1", 1⟩, ⟨.identifier, "neg", 1⟩] := by cbv
  refine ⟨scanned, ?_⟩
  rw [(finishes_iff_never_at_neg scanned).2.1]
  intro never
  exact never 3 ⟨by decide, ⟨.identifier, "neg", 1⟩, [], rfl, rfl, rfl⟩

/-- Parsing `1 neg` never ends. -/
theorem not_finished_neg_after_number : ∃ tokens, tokenize "1 neg" = .ok tokens ∧
    ∀ n, ¬ (after n (ofTokens tokens)).Finished := by
  refine ⟨[⟨.integer, "1", 1⟩, ⟨.identifier, "neg", 1⟩], by cbv, ?_⟩
  intro n finished
  have waits : (after 1 (ofTokens [⟨.integer, "1", 1⟩, ⟨.identifier, "neg", 1⟩])).Waits :=
    ⟨⟨.identifier, "neg", 1⟩, [], signPower, rfl, rfl, by decide, rfl⟩
  exact not_waits_of_finished finished waits

end State

end ScriptLang.Parse.Binding
