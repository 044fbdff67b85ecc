import ScriptLang.Proofs.Eval.Results

/-!
Who returns a value from the running function: nothing but the statements of its body.

An expression yields a value or is stuck. A call inside it takes the value that the called function
returns, so no return leaves an expression.
-/

namespace ScriptLang.Eval

variable {α β : Type} {x : Eval α} {k : α → Eval β} {st : Store}

/-- Evaluation has stopped early, but not to return a value. -/
def Stuck : EStateM.Result Stop Store α → Prop
  | .error (.failure _) _ | .error .outOfFuel _ => True
  | .error (.ret _) _ | .ok _ _ => False

/-- A computation that returns nothing from the running function. -/
def Plain (x : Eval α) : Prop := ∀ st, (∃ a st', x st = .ok a st') ∨ Stuck (x st)

theorem plain_pure (a : α) : Plain (pure a : Eval α) := fun st => .inl ⟨a, st, rfl⟩

theorem plain_fault (f : Fault) : Plain (fault f : Eval α) := fun _ => .inr trivial

theorem plain_report (line : Line) (text : String) : Plain (report line text : Eval α) :=
  fun _ => .inr trivial

theorem bind_stuck (stuck : Stuck (x st)) : Stuck ((x >>= k) st) := by
  cases result : x st with
  | ok a st' =>
    rw [result] at stuck
    exact stuck.elim
  | error e st' =>
    rw [bind_of_error result]
    rw [result] at stuck
    cases e with
    | failure | outOfFuel => trivial
    | ret => exact stuck.elim

theorem Plain.bind (plain : Plain x) (rest : ∀ a, Plain (k a)) : Plain (x >>= k) := by
  intro st
  rcases plain st with ⟨a, st', done⟩ | stuck
  · rw [bind_of_ok done]
    exact rest a st'
  · exact .inr (bind_stuck stuck)

theorem plain_demand (o : Option Value) : Plain (demand o) := by
  cases o with
  | none => exact plain_fault _
  | some v => exact plain_pure v

/-- The value that a computation needs is there, or the computation is stuck. -/
theorem demand_cases {x : Eval (Option Value)} (plain : Plain x) (k : Value → Eval β) (st : Store) :
    (∃ v st₁, x st = .ok (some v) st₁ ∧ (do let o ← x; let v ← demand o; k v) st = k v st₁) ∨
      Stuck ((do let o ← x; let v ← demand o; k v) st) := by
  rcases plain st with ⟨o, st₁, done⟩ | stuck
  · rw [bind_of_ok done]
    cases o with
    | none => exact .inr trivial
    | some v => exact .inl ⟨v, st₁, done, rfl⟩
  · exact .inr (bind_stuck stuck)

/-! ### Elementary steps -/

theorem plain_lookup (σ : Nat) (n : String) (line : Line) : Plain (lookup σ n line) := by
  intro st
  unfold lookup
  rw [get_bind]
  cases st.forest.getVar σ n with
  | none => exact plain_report _ _ st
  | some v =>
    cases datum : v.datum with
    | none => simpa only [datum] using plain_report _ _ st
    | _ => simpa only [datum] using plain_pure v st

theorem plain_binary (op : Token) (a b : Value) (line : Line) : Plain (binary op a b line) := by
  unfold binary
  split
  · exact plain_pure none
  · split
    · exact plain_report _ _
    · split
      · exact plain_pure _
      · exact plain_report _ _
      · exact plain_fault _

theorem plain_unary (op : Token) (v : Value) : Plain (unary op v) := by
  unfold unary
  split
  · split
    · exact plain_pure _
    · exact plain_report _ _
    · exact plain_fault _
  · split
    · exact plain_pure _
    · exact plain_report _ _
  · split
    · exact plain_pure _
    · exact plain_report _ _
  · exact plain_pure none

/-- A datum is printed, or it cannot be shown. -/
theorem print_cases (d : Datum) (ending : String) (st : Store) :
    (∃ text, Value.printed d = .ok text ∧
      print d (.str ending) st = .ok () { st with output := st.output ++ (text ++ ending) }) ∨
      Stuck (print d (.str ending) st) := by
  unfold print
  cases shown : Value.printed d with
  | error f => exact .inr trivial
  | ok text => exact .inl ⟨text, rfl, rfl⟩

theorem childScope_bind {σ : Nat} {k : Nat → Eval β} : (childScope σ >>= k) st =
    k st.forest.scopes.size { st with forest := (st.forest.child σ).2 } := rfl

theorem plain_childScope (σ : Nat) : Plain (childScope σ) := fun _ => .inl ⟨_, _, rfl⟩

theorem plain_bindParams (σ : Nat) (ps : List Param) (vs : List (Option Value)) :
    Plain (bindParams σ ps vs) := by
  induction ps generalizing vs with
  | nil => exact plain_pure ()
  | cons p ps ih =>
    cases vs with
    | nil => exact plain_pure ()
    | cons v vs => exact Plain.bind (fun _ => .inl ⟨_, _, rfl⟩) fun _ => ih vs

/-- What a function returns stays inside the call. -/
theorem plain_returning (body : Eval Unit) : Plain (returning body) := by
  intro st
  unfold returning
  split
  · exact .inl ⟨_, _, rfl⟩
  · exact .inl ⟨_, _, rfl⟩
  · rename_i e st' other _
    cases e with
    | ret v => exact absurd rfl (other v)
    | failure | outOfFuel => exact .inr trivial

/-! ### Expressions -/

/-- Expressions, arguments and calls with some fuel return nothing. -/
structure PlainExprs (fuel : Nat) : Prop where
  expr : ∀ σ e, Plain (expr fuel σ e)
  exprs : ∀ σ es, Plain (exprs fuel σ es)
  call : ∀ σ n es line, Plain (call fuel σ n es line)

theorem plain_expr_succ {fuel : Nat} (ih : PlainExprs fuel) (σ : Nat) (e : Expr) :
    Plain (expr (fuel + 1) σ e) := by
  cases e with
  | integer value line =>
    rw [expr]
    split
    · exact plain_pure _
    · exact plain_fault _
  | real | text | bool =>
    rw [expr]
    exact plain_pure _
  | group inner line =>
    rw [expr]
    exact ih.expr σ inner
  | name n line =>
    rw [expr, map_eq_pure_bind]
    exact (plain_lookup σ n line).bind fun _ => plain_pure _
  | binary op left right line =>
    rw [expr]
    exact (ih.expr σ left).bind fun _ => (plain_demand _).bind fun _ =>
      (ih.expr σ right).bind fun _ => (plain_demand _).bind fun _ => plain_binary _ _ _ _
  | unary op operand line =>
    rw [expr]
    exact (ih.expr σ operand).bind fun _ => (plain_demand _).bind fun _ => plain_unary _ _
  | logical op left right line =>
    rw [expr]
    refine (ih.expr σ left).bind fun _ => (plain_demand _).bind fun a => ?_
    split
    · exact plain_pure _
    · exact ih.expr σ right
  | call n args line =>
    rw [expr]
    exact ih.call σ n args line

theorem plain_call_succ {fuel : Nat} (ih : PlainExprs fuel) (σ : Nat) (n : String) (es : List Expr)
    (line : Line) : Plain (call (fuel + 1) σ n es line) := by
  intro st
  rw [call, get_bind]
  cases st.forest.getFunc σ n with
  | none => exact plain_report _ _ st
  | some f =>
    dsimp only
    split
    · exact plain_report _ _ st
    · refine Plain.bind (ih.exprs σ es) (fun vs => ?_) st
      exact (plain_childScope _).bind fun inner =>
        (plain_bindParams inner f.params vs).bind fun _ => plain_returning _

theorem plainExprs (fuel : Nat) : PlainExprs fuel := by
  induction fuel with
  | zero =>
    refine ⟨fun σ e st => ?_, fun σ es st => ?_, fun σ n es line st => ?_⟩
    · rw [expr]
      exact .inr trivial
    · rw [exprs]
      exact .inr trivial
    · rw [call]
      exact .inr trivial
  | succ fuel ih =>
    refine ⟨plain_expr_succ ih, fun σ es => ?_, plain_call_succ ih⟩
    cases es with
    | nil =>
      rw [exprs]
      exact plain_pure []
    | cons e es =>
      rw [exprs]
      exact (ih.expr σ e).bind fun _ => (ih.exprs σ es).bind fun _ => plain_pure _

end ScriptLang.Eval
