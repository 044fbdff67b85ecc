import ScriptLang.Proofs.Eval.Confinement

/-!
The moments of a run.

To evaluate a part of a program is a task. Each task has a plan: its elementary steps and the tasks
that it starts, in their order. With one more unit of fuel a task is evaluated by following its plan
(`Task.run_succ`), so the plans say at which moments of a run a task starts or a step has ended, and
what the store is then.
-/

namespace ScriptLang.Eval

/-- A part of a program to evaluate, with the scopes and the data that its evaluation needs. -/
inductive Task where
  | expr (σ : Nat) (e : Expr)
  | exprs (σ : Nat) (es : List Expr)
  | call (σ : Nat) (name : String) (args : List Expr) (line : Line)
  | stmt (σ : Nat) (s : Stmt)
  | block (σ : Nat) (b : Block)
  | stmts (σ : Nat) (ss : List Stmt)
  | rounds (σ inner : Nat) (test : Expr) (body : Block) (line : Line)
  | counted (σ inner : Nat) (var : String) (c : Comparison) (last step : Datum) (body : Block)
      (i : Datum)

namespace Task

/-- What a task yields. -/
abbrev Result : Task → Type
  | .expr _ _ | .call _ _ _ _ => Option Value
  | .exprs _ _ => List (Option Value)
  | _ => Unit

/-- The evaluation of a task. -/
def run (fuel : Nat) : (t : Task) → Eval t.Result
  | .expr σ e => Eval.expr fuel σ e
  | .exprs σ es => Eval.exprs fuel σ es
  | .call σ name args line => Eval.call fuel σ name args line
  | .stmt σ s => Eval.stmt fuel σ s
  | .block σ b => Eval.block fuel σ b
  | .stmts σ ss => Eval.stmts fuel σ ss
  | .rounds σ inner test body line => Eval.rounds fuel σ inner test body line
  | .counted σ inner var c last step body i => Eval.counted fuel σ inner var c last step body i

end Task

/-- Steps in their order: elementary ones, and the evaluation of tasks. -/
inductive Plan : Type → Type 1 where
  | act {α : Type} (x : Eval α) : Plan α
  | eval (t : Task) : Plan t.Result
  | bind {α β : Type} (p : Plan α) (k : α → Plan β) : Plan β
  | returning (p : Plan Unit) : Plan (Option Value)

/-- What takes place while a plan is followed: a task starts, or a step has ended. -/
inductive Event where
  | start (t : Task) (st : Store)
  | done (st : Store)

/-- The store at an event. -/
def Event.store : Event → Store
  | .start _ st | .done st => st

namespace Plan

variable {α β : Type}

/-- Follows a plan. -/
def exec (run : (t : Task) → Eval t.Result) {α : Type} : Plan α → Eval α
  | .act x => x
  | .eval t => run t
  | .bind p k => p.exec run >>= fun a => (k a).exec run
  | .returning p => Eval.returning (p.exec run)

/-- The events while a plan is followed, in their order. The events inside a task that it starts are
not among them. -/
def events (run : (t : Task) → Eval t.Result) {α : Type} : Plan α → Store → List Event
  | .act x, st => [.done (after (x st))]
  | .eval t, st => [.start t st, .done (after (run t st))]
  | .bind p k, st =>
    p.events run st ++
      match p.exec run st with
      | .ok a st₁ => (k a).events run st₁
      | .error _ _ => []
  | .returning p, st => p.events run st

/-- An event of two plans in sequence is one of the first or, if that succeeds, of the second. -/
theorem mem_events_bind {run : (t : Task) → Eval t.Result} {p : Plan α} {k : α → Plan β}
    {st : Store} {e : Event} :
    e ∈ (p.bind k).events run st ↔
      e ∈ p.events run st ∨ ∃ a st₁, p.exec run st = .ok a st₁ ∧ e ∈ (k a).events run st₁ := by
  rw [events, List.mem_append]
  refine or_congr_right ?_
  cases p.exec run st with
  | ok a st₁ =>
    constructor
    · intro mem
      exact ⟨a, st₁, rfl, mem⟩
    · rintro ⟨_, _, ⟨⟩, mem⟩
      exact mem
  | error s st₁ => simp

theorem mem_events_of_ok {run : (t : Task) → Eval t.Result} {p : Plan α} {k : α → Plan β} {a : α}
    {st st₁ : Store} {e : Event} (done : p.exec run st = .ok a st₁)
    (mem : e ∈ (k a).events run st₁) : e ∈ (p.bind k).events run st :=
  mem_events_bind.mpr (.inr ⟨a, st₁, done, mem⟩)

/-- The value of an expression where one is needed. -/
def value (σ : Nat) (e : Expr) : Plan Value :=
  (eval (.expr σ e)).bind fun o => act (demand o)

/-- Binds parameters to arguments, one by one. -/
def params (σ : Nat) : List Param → List (Option Value) → Plan Unit
  | p :: ps, v :: vs => (act (setLocal σ p.name v)).bind fun _ => params σ ps vs
  | _, _ => act (pure ())

def expr (σ : Nat) : Expr → Plan (Option Value)
  | .integer value _ =>
    match Number.ofInt? value with
    | some x => act (pure (some (.number (.float x))))
    | none => act (fault (.overflow .conversion))
  | .real value _ => act (pure (some (.number (.float value))))
  | .text value _ => act (pure (some (.string value)))
  | .bool value _ => act (pure (some (.bool value)))
  | .group inner _ => eval (.expr σ inner)
  | .name n line => act (some <$> lookup σ n line)
  | .binary op left right line =>
    (value σ left).bind fun a => (value σ right).bind fun b => act (binary op a b line)
  | .unary op operand _ => (value σ operand).bind fun v => act (unary op v)
  | .logical op left right _ =>
    (value σ left).bind fun a =>
      if decides op a then act (pure (some a)) else eval (.expr σ right)
  | .call n args line => eval (.call σ n args line)

def exprs (σ : Nat) : List Expr → Plan (List (Option Value))
  | [] => act (pure [])
  | e :: es =>
    (eval (.expr σ e)).bind fun v => (eval (.exprs σ es)).bind fun vs => act (pure (v :: vs))

def call (σ : Nat) (n : String) (args : List Expr) (line : Line) : Plan (Option Value) :=
  (act get).bind fun st =>
    match st.forest.getFunc σ n with
    | none => act (report line ("Function " ++ Text.quoted n ++ " not declared."))
    | some f =>
      if args.length != f.params.length then
        act (report line
          ("Function " ++ Text.quoted f.name ++ " expected " ++ toString f.params.length ++
            " params but " ++ toString args.length ++ " args were passed."))
      else
        (eval (.exprs σ args)).bind fun values => (act (childScope f.scope)).bind fun inner =>
          (params inner f.params values).bind fun _ => returning (eval (.block inner f.body))

def stmt (σ : Nat) : Stmt → Plan Unit
  | .print v ending _ => (value σ v).bind fun v => act (print v.datum ending)
  | .assign target v _ =>
    (value σ v).bind fun v => act (do setVar σ (← targetName target) (some v))
  | .assignLocal target v _ =>
    (value σ v).bind fun v => act (do setLocal σ (← targetName target) (some v))
  | .branch test thenBlock elseBlock line =>
    (value σ test).bind fun v =>
      match v.tag with
      | .bool =>
        (act (childScope σ)).bind fun inner =>
          if v.datum.truthy then eval (.block inner thenBlock)
          else
            match elseBlock with
            | some b => eval (.block inner b)
            | none => act (pure ())
      | _ => act (report line "Condition test is not a boolean expression.")
  | .loop test body line =>
    (act (childScope σ)).bind fun inner => eval (.rounds σ inner test body line)
  | .count var _ start stop step body _ =>
    (value σ start).bind fun i => (value σ stop).bind fun last =>
      (act (childScope σ)).bind fun inner =>
        (act (lift (i.datum.ordered .lt last.datum))).bind fun upward =>
          (match step with
            | none => act (pure (Datum.int (if upward then 1 else -1)))
            | some e => (value σ e).bind fun v => act (pure v.datum)).bind fun delta =>
            eval (.counted σ inner var (if upward then .le else .ge) last.datum delta body i.datum)
  | .func name params body _ =>
    act (modify fun st =>
      { st with forest := st.forest.setFunc σ name (some ⟨name, params, body, σ⟩) })
  | .call n args line => (eval (.call σ n args line)).bind fun _ => act (pure ())
  | .ret v _ => (eval (.expr σ v)).bind fun v => act (throw (.ret v))

def stmts (σ : Nat) : List Stmt → Plan Unit
  | [] => act (pure ())
  | s :: ss => (eval (.stmt σ s)).bind fun _ => eval (.stmts σ ss)

def rounds (σ inner : Nat) (test : Expr) (body : Block) (line : Line) : Plan Unit :=
  (value σ test).bind fun v =>
    match v.tag with
    | .bool =>
      if v.datum.truthy then
        (eval (.block inner body)).bind fun _ => eval (.rounds σ inner test body line)
      else act (pure ())
    | _ => act (report line "While test is not a boolean expression.")

def counted (σ inner : Nat) (var : String) (c : Comparison) (last step : Datum) (body : Block)
    (i : Datum) : Plan Unit :=
  (act (lift (i.ordered c last))).bind fun more =>
    if more then
      (act (setVar σ var (some (.number i)))).bind fun _ => (eval (.block inner body)).bind fun _ =>
        (act (lift (i.add step))).bind fun next =>
          eval (.counted σ inner var c last step body next)
    else act (pure ())

end Plan

/-- The plan of a task. -/
def Task.plan : (t : Task) → Plan t.Result
  | .expr σ e => Plan.expr σ e
  | .exprs σ es => Plan.exprs σ es
  | .call σ n args line => Plan.call σ n args line
  | .stmt σ s => Plan.stmt σ s
  | .block σ b => .eval (.stmts σ b.stmts)
  | .stmts σ ss => Plan.stmts σ ss
  | .rounds σ inner test body line => Plan.rounds σ inner test body line
  | .counted σ inner var c last step body i => Plan.counted σ inner var c last step body i

/-! ### Following the plans -/

variable {n : Nat}

theorem exec_value_bind {α : Type} (σ : Nat) (e : Expr) (k : Value → Plan α) :
    ((Plan.value σ e).bind k).exec (Task.run n) =
      (do let v ← demand (← expr n σ e); (k v).exec (Task.run n)) := by
  simp only [Plan.exec, Plan.value, Task.run, bind_assoc]

theorem exec_params (run : (t : Task) → Eval t.Result) (σ : Nat) (ps : List Param)
    (vs : List (Option Value)) : (Plan.params σ ps vs).exec run = bindParams σ ps vs := by
  induction ps generalizing vs with
  | nil => rfl
  | cons p ps ih =>
    cases vs with
    | nil => rfl
    | cons v vs =>
      rw [Plan.params, Plan.exec, bindParams]
      exact bind_congr fun _ => ih vs

theorem exec_expr (σ : Nat) (e : Expr) :
    (Plan.expr σ e).exec (Task.run n) = expr (n + 1) σ e := by
  cases e with
  | integer value line =>
    rw [expr, Plan.expr]
    cases Number.ofInt? value <;> rfl
  | real | text | bool | group | name | call =>
    rw [expr, Plan.expr]
    rfl
  | binary op left right line =>
    rw [expr, Plan.expr]
    simp only [exec_value_bind]
    rfl
  | unary op operand line =>
    rw [expr, Plan.expr, exec_value_bind]
    rfl
  | logical op left right line =>
    rw [expr, Plan.expr, exec_value_bind]
    refine bind_congr fun o => bind_congr fun a => ?_
    split <;> rfl

theorem exec_call (σ : Nat) (f : String) (args : List Expr) (line : Line) :
    (Plan.call σ f args line).exec (Task.run n) = call (n + 1) σ f args line := by
  rw [call, Plan.call]
  refine bind_congr fun st => ?_
  dsimp only
  cases st.forest.getFunc σ f with
  | none => rfl
  | some g =>
    dsimp only
    split
    · rfl
    · refine bind_congr fun values => bind_congr fun inner => ?_
      rw [Plan.exec, exec_params]
      rfl

theorem exec_stmt (σ : Nat) (s : Stmt) :
    (Plan.stmt σ s).exec (Task.run n) = stmt (n + 1) σ s := by
  cases s with
  | print | assign | assignLocal =>
    rw [stmt, Plan.stmt, exec_value_bind]
    rfl
  | branch test thenBlock elseBlock line =>
    rw [stmt, Plan.stmt, exec_value_bind]
    refine bind_congr fun o => bind_congr fun v => ?_
    cases v.tag with
    | bool =>
      refine bind_congr fun inner => ?_
      split
      · rfl
      · cases elseBlock <;> rfl
    | _ => rfl
  | loop | func | call | ret =>
    rw [stmt, Plan.stmt]
    rfl
  | count var varLine start stop step body line =>
    rw [stmt, Plan.stmt]
    simp only [exec_value_bind]
    refine bind_congr fun o => bind_congr fun i => bind_congr fun o => bind_congr fun last =>
      bind_congr fun inner => bind_congr fun upward => ?_
    cases step with
    | none => rfl
    | some e =>
      simp only [Plan.exec, Plan.value, Task.run, bind_assoc, map_eq_pure_bind]

theorem exec_rounds (σ inner : Nat) (test : Expr) (body : Block) (line : Line) :
    (Plan.rounds σ inner test body line).exec (Task.run n) =
      rounds (n + 1) σ inner test body line := by
  rw [rounds, Plan.rounds, exec_value_bind]
  refine bind_congr fun o => bind_congr fun v => ?_
  cases v.tag with
  | bool =>
    dsimp only
    split <;> rfl
  | _ => rfl

theorem exec_counted (σ inner : Nat) (var : String) (c : Comparison) (last step : Datum)
    (body : Block) (i : Datum) :
    (Plan.counted σ inner var c last step body i).exec (Task.run n) =
      counted (n + 1) σ inner var c last step body i := by
  rw [counted, Plan.counted]
  refine bind_congr fun more => ?_
  cases more <;> rfl

/-- To evaluate a task is to follow its plan. -/
theorem Task.run_succ (n : Nat) (t : Task) : t.run (n + 1) = t.plan.exec (Task.run n) := by
  cases t with
  | expr σ e => exact (exec_expr σ e).symm
  | exprs σ es =>
    rw [Task.run, Task.plan]
    cases es <;> rw [Eval.exprs] <;> rfl
  | call σ f args line => exact (exec_call σ f args line).symm
  | stmt σ s => exact (exec_stmt σ s).symm
  | block σ b =>
    rw [Task.run, Eval.block]
    rfl
  | stmts σ ss =>
    rw [Task.run, Task.plan]
    cases ss <;> rw [Eval.stmts] <;> rfl
  | rounds σ inner test body line => exact (exec_rounds σ inner test body line).symm
  | counted σ inner var c last step body i =>
    exact (exec_counted σ inner var c last step body i).symm

theorem Task.run_zero (t : Task) : t.run 0 = throw .outOfFuel := by
  cases t <;> simp only [Task.run, Eval.expr, Eval.exprs, Eval.call, Eval.stmt, Eval.block,
    Eval.stmts, Eval.rounds, Eval.counted]

/-! ### Moments -/

/-- A task is about to be evaluated. -/
structure Moment where
  fuel : Nat
  task : Task
  store : Store

/-- The events of a moment's task: its start, and what takes place while its plan is followed. -/
def Moment.events : Moment → List Event
  | ⟨0, t, st⟩ => [.start t st]
  | ⟨n + 1, t, st⟩ => .start t st :: t.plan.events (Task.run n) st

/-- One task starts another. -/
inductive Starts : Moment → Moment → Prop where
  | intro {n : Nat} {t t' : Task} {st st' : Store} :
      Event.start t' st' ∈ t.plan.events (Task.run n) st → Starts ⟨n + 1, t, st⟩ ⟨n, t', st'⟩

/-- A task is evaluated in the course of another, or is the same. -/
inductive Reaches : Moment → Moment → Prop where
  | refl (m : Moment) : Reaches m m
  | step {m₁ m₂ m₃ : Moment} : Starts m₁ m₂ → Reaches m₂ m₃ → Reaches m₁ m₃

theorem Reaches.snoc {m₁ m₂ m₃ : Moment} (h : Reaches m₁ m₂) (last : Starts m₂ m₃) :
    Reaches m₁ m₃ := by
  induction h with
  | refl m => exact .step last (.refl _)
  | step first _ ih => exact .step first (ih last)

end ScriptLang.Eval
