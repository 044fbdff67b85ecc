import ScriptLang.Proofs.Eval.Results

/-!
More fuel.

An evaluation that does not run out of fuel ends in the same way with more of it, so an expression
has one value whatever the fuel (`expr_unique`).
-/

namespace ScriptLang.Eval

variable {α β : Type} {x y : Eval α} {k l : α → Eval β} {st : Store} {fuel : Nat}

/-- A computation runs out of fuel or does what another one does. -/
def Cut (x y : Eval α) : Prop := ∀ st, (∃ st', x st = .error .outOfFuel st') ∨ x st = y st

theorem Cut.refl (x : Eval α) : Cut x x := fun _ => .inr rfl

theorem cut_outOfFuel (y : Eval α) : Cut (throw .outOfFuel) y := fun st => .inl ⟨st, rfl⟩

theorem Cut.bind (cut : Cut x y) (rest : ∀ a, Cut (k a) (l a)) : Cut (x >>= k) (y >>= l) := by
  intro st
  rcases cut st with ⟨st', out⟩ | same
  · exact .inl ⟨st', bind_of_error out⟩
  · cases done : x st with
    | ok a st₁ =>
      rw [bind_of_ok done, bind_of_ok (same ▸ done)]
      exact rest a st₁
    | error e st₁ =>
      rw [bind_of_error done, bind_of_error (same ▸ done)]
      exact .inr rfl

theorem Cut.map (cut : Cut x y) (g : α → β) : Cut (g <$> x) (g <$> y) := by
  rw [map_eq_pure_bind, map_eq_pure_bind]
  exact cut.bind fun _ => .refl _

theorem Cut.ite {p : Prop} [Decidable p] {x' y' : Eval α} (first : Cut x y) (second : Cut x' y') :
    Cut (if p then x else x') (if p then y else y') := by
  split
  · exact first
  · exact second

theorem Cut.demand_bind {x y : Eval (Option Value)} {k l : Value → Eval β} (cut : Cut x y)
    (rest : ∀ v, Cut (k v) (l v)) :
    Cut (do let o ← x; let v ← demand o; k v) (do let o ← y; let v ← demand o; l v) :=
  cut.bind fun _ => Cut.bind (.refl _) rest

theorem Cut.returning {x y : Eval Unit} (cut : Cut x y) : Cut (returning x) (returning y) := by
  intro st
  rcases cut st with ⟨st', out⟩ | same
  · refine .inl ⟨st', ?_⟩
    rw [Eval.returning, out]
  · refine .inr ?_
    rw [Eval.returning, Eval.returning, same]

/-- One unit of fuel more changes nothing but an evaluation that runs out of it. -/
structure Steady (fuel : Nat) : Prop where
  expr : ∀ σ e, Cut (expr fuel σ e) (expr (fuel + 1) σ e)
  exprs : ∀ σ es, Cut (exprs fuel σ es) (exprs (fuel + 1) σ es)
  call : ∀ σ n es line, Cut (call fuel σ n es line) (call (fuel + 1) σ n es line)
  stmt : ∀ σ s, Cut (stmt fuel σ s) (stmt (fuel + 1) σ s)
  block : ∀ σ b, Cut (block fuel σ b) (block (fuel + 1) σ b)
  stmts : ∀ σ ss, Cut (stmts fuel σ ss) (stmts (fuel + 1) σ ss)
  rounds : ∀ σ inner test body line,
    Cut (rounds fuel σ inner test body line) (rounds (fuel + 1) σ inner test body line)
  counted : ∀ σ inner var c last step body i,
    Cut (counted fuel σ inner var c last step body i)
      (counted (fuel + 1) σ inner var c last step body i)

theorem steady_zero : Steady 0 := by
  constructor <;> intros
  · rw [expr]
    exact cut_outOfFuel _
  · rw [exprs]
    exact cut_outOfFuel _
  · rw [call]
    exact cut_outOfFuel _
  · rw [stmt]
    exact cut_outOfFuel _
  · rw [block]
    exact cut_outOfFuel _
  · rw [stmts]
    exact cut_outOfFuel _
  · rw [rounds]
    exact cut_outOfFuel _
  · rw [counted]
    exact cut_outOfFuel _

theorem Steady.expr_succ (ih : Steady fuel) (σ : Nat) (e : Expr) :
    Cut (Eval.expr (fuel + 1) σ e) (Eval.expr (fuel + 2) σ e) := by
  cases e with
  | integer | real | text | bool | name =>
    rw [Eval.expr, Eval.expr]
    exact .refl _
  | group inner line =>
    rw [Eval.expr, Eval.expr]
    exact ih.expr σ inner
  | binary op left right line =>
    rw [Eval.expr, Eval.expr]
    exact (ih.expr σ left).demand_bind fun _ => (ih.expr σ right).demand_bind fun _ => .refl _
  | unary op operand line =>
    rw [Eval.expr, Eval.expr]
    exact (ih.expr σ operand).demand_bind fun _ => .refl _
  | logical op left right line =>
    rw [Eval.expr, Eval.expr]
    exact (ih.expr σ left).demand_bind fun _ => .ite (.refl _) (ih.expr σ right)
  | call n args line =>
    rw [Eval.expr, Eval.expr]
    exact ih.call σ n args line

theorem Steady.call_succ (ih : Steady fuel) (σ : Nat) (n : String) (es : List Expr) (line : Line) :
    Cut (Eval.call (fuel + 1) σ n es line) (Eval.call (fuel + 2) σ n es line) := by
  rw [Eval.call, Eval.call]
  refine Cut.bind (.refl _) fun st => ?_
  cases st.forest.getFunc σ n with
  | none => exact .refl _
  | some f =>
    exact .ite (.refl _) ((ih.exprs σ es).bind fun _ => Cut.bind (.refl _) fun inner =>
      Cut.bind (.refl _) fun _ => (ih.block inner f.body).returning)

theorem Steady.stmt_succ (ih : Steady fuel) (σ : Nat) (s : Stmt) :
    Cut (Eval.stmt (fuel + 1) σ s) (Eval.stmt (fuel + 2) σ s) := by
  cases s with
  | print value _ _ | assign _ value _ | assignLocal _ value _ =>
    rw [Eval.stmt, Eval.stmt]
    exact (ih.expr σ value).demand_bind fun _ => .refl _
  | branch test thenBlock elseBlock line =>
    rw [Eval.stmt, Eval.stmt]
    refine (ih.expr σ test).demand_bind fun v => ?_
    cases v.tag with
    | bool =>
      refine Cut.bind (.refl _) fun inner => .ite (ih.block inner thenBlock) ?_
      cases elseBlock with
      | none => exact .refl _
      | some b => exact ih.block inner b
    | _ => exact .refl _
  | loop test body line =>
    rw [Eval.stmt, Eval.stmt]
    exact Cut.bind (.refl _) fun inner => ih.rounds σ inner test body line
  | count var varLine start stop step body line =>
    rw [Eval.stmt, Eval.stmt]
    refine (ih.expr σ start).demand_bind fun i => (ih.expr σ stop).demand_bind fun last =>
      Cut.bind (.refl _) fun inner => Cut.bind (.refl _) fun upward => ?_
    cases step with
    | none => exact Cut.bind (.refl _) fun delta => ih.counted σ inner var _ _ delta body _
    | some e =>
      exact (((ih.expr σ e).bind fun _ => .refl _).map _).bind fun delta =>
        ih.counted σ inner var _ _ delta body _
  | func =>
    rw [Eval.stmt, Eval.stmt]
    exact .refl _
  | call n args line =>
    rw [Eval.stmt, Eval.stmt]
    exact (ih.call σ n args line).bind fun _ => .refl _
  | ret value line =>
    rw [Eval.stmt, Eval.stmt]
    exact (ih.expr σ value).bind fun _ => .refl _

theorem Steady.rounds_succ (ih : Steady fuel) (σ inner : Nat) (test : Expr) (body : Block)
    (line : Line) : Cut (Eval.rounds (fuel + 1) σ inner test body line)
      (Eval.rounds (fuel + 2) σ inner test body line) := by
  rw [Eval.rounds, Eval.rounds]
  refine (ih.expr σ test).demand_bind fun v => ?_
  cases v.tag with
  | bool =>
    exact .ite ((ih.block inner body).bind fun _ => ih.rounds σ inner test body line) (.refl _)
  | _ => exact .refl _

theorem steady (fuel : Nat) : Steady fuel := by
  induction fuel with
  | zero => exact steady_zero
  | succ fuel ih =>
    refine ⟨ih.expr_succ, fun σ es => ?_, ih.call_succ, ih.stmt_succ, fun σ b => ?_,
      fun σ ss => ?_, ih.rounds_succ, fun σ inner var c last step body i => ?_⟩
    · cases es with
      | nil =>
        rw [exprs, exprs]
        exact .refl _
      | cons e es =>
        rw [exprs, exprs]
        exact (ih.expr σ e).bind fun _ => (ih.exprs σ es).bind fun _ => .refl _
    · rw [block, block]
      exact ih.stmts σ b.stmts
    · cases ss with
      | nil =>
        rw [stmts, stmts]
        exact .refl _
      | cons s ss =>
        rw [stmts, stmts]
        exact (ih.stmt σ s).bind fun _ => ih.stmts σ ss
    · rw [counted, counted]
      exact Cut.bind (.refl _) fun _ => .ite
        (Cut.bind (.refl _) fun _ => (ih.block inner body).bind fun _ =>
          Cut.bind (.refl _) fun next => ih.counted σ inner var c last step body next)
        (.refl _)

variable {σ : Nat} {e : Expr} {r r' : Option Value} {st' st'' : Store} {fuel' : Nat}

/-- More fuel gives the same value. -/
theorem expr_of_le (le : fuel ≤ fuel') (done : expr fuel σ e st = .ok r st') :
    expr fuel' σ e st = .ok r st' := by
  induction le with
  | refl => exact done
  | @step m _ ih =>
    rcases (steady m).expr σ e st with ⟨_, out⟩ | same
    · cases ih.symm.trans out
    · exact same.symm.trans ih

/-- An expression has one value, whatever the fuel. -/
theorem expr_unique (done : expr fuel σ e st = .ok r st')
    (done' : expr fuel' σ e st = .ok r' st'') : r = r' ∧ st' = st'' := by
  have eq := (expr_of_le (Nat.le_max_left fuel fuel') done).symm.trans
    (expr_of_le (Nat.le_max_right fuel fuel') done')
  cases eq
  exact ⟨rfl, rfl⟩

end ScriptLang.Eval
