import ScriptLang.Proofs.Eval.Moments
import ScriptLang.Proofs.Scope.Lookup

/-!
Lexical scoping.

A function is bound in the scope that it was declared in. So the body of a function that is seen
from a scope runs inside a scope around that one, and an evaluation changes only the scopes that it
runs in, the scopes around them and new ones. All others stay exactly as they are
(`Task.untouched`).
-/

namespace ScriptLang

namespace Forest

variable {f : Forest Value Closure} {i j τ : Nat}

/-- Every function is bound in the scope that it was declared in. -/
def Homed (f : Forest Value Closure) : Prop :=
  ∀ i g c, f.func? i g = some (some c) → c.scope = i

theorem Homed.setLocal (h : f.Homed) (j : Nat) (x : String) (v : Option Value) :
    (f.setLocal j x v).Homed := by
  intro i g c bound
  rw [func?_setLocal] at bound
  exact h i g c bound

theorem Homed.setFunc {c : Closure} (h : f.Homed) (g : String) (home : c.scope = j) :
    (f.setFunc j g (some c)).Homed := by
  intro i g' c' bound
  rw [func?_setFunc] at bound
  split at bound
  · rename_i here
    cases bound
    exact home.trans here.1
  · exact h i g' c' bound

theorem Homed.child (h : f.Homed) (τ : Nat) : (f.child τ).2.Homed := by
  intro i g c bound
  rcases Nat.lt_trichotomy i f.scopes.size with lt | rfl | gt
  · rw [func?, scopes_child_of_lt lt] at bound
    exact h i g c bound
  · rw [func?, scopes_child_size] at bound
    cases bound
  · rw [func?, Array.getElem?_eq_none (by simp [Forest.child]; omega)] at bound
    cases bound

/-- What encloses a new scope is the scope itself, or encloses the one it was made in. -/
theorem Encloses.of_child (h : (f.child τ).2.Encloses i f.scopes.size) (lt : τ < f.scopes.size) :
    i = f.scopes.size ∨ f.Encloses i τ := by
  cases h with
  | self => exact .inl rfl
  | outer around _ outer =>
    rw [around?, scopes_child_size] at around
    cases around
    refine .inr (outer.congr (fun j lt => ?_) lt)
    rw [around?, around?, scopes_child_of_lt lt]

end Forest

namespace Eval

variable {α β : Type} {P : Nat → Prop} {f f' f₁ f₂ : Forest Value Closure} {n σ τ i : Nat}
  {τs τs' : List Nat} {st : Store}

/-- A change that touches the contents of scopes in `P` only. No scope is gone or lies elsewhere. -/
structure Touches (P : Nat → Prop) (f f' : Forest Value Closure) : Prop where
  size : f.scopes.size ≤ f'.scopes.size
  around : ∀ i, i < f.scopes.size → f'.around? i = f.around? i
  homed : f.Homed → f'.Homed
  others : ∀ i, ¬P i → f'.scopes[i]? = f.scopes[i]?

theorem Touches.refl (P : Nat → Prop) (f : Forest Value Closure) : Touches P f f :=
  ⟨Nat.le_refl _, fun _ _ => rfl, id, fun _ _ => rfl⟩

theorem Touches.trans (h : Touches P f f₁) (h' : Touches P f₁ f₂) : Touches P f f₂ where
  size := Nat.le_trans h.size h'.size
  around := by
    intro i lt
    exact (h'.around i (Nat.lt_of_lt_of_le lt h.size)).trans (h.around i lt)
  homed := by
    intro homed
    exact h'.homed (h.homed homed)
  others := by
    intro i other
    exact (h'.others i other).trans (h.others i other)

/-- What an evaluation in the scopes `τs` relies on to touch scopes in `P` only: they and all scopes
around them are in `P`, and so are all scopes to come. -/
structure Ready (P : Nat → Prop) (f : Forest Value Closure) (τs : List Nat) : Prop where
  homed : f.Homed
  fresh : ∀ i, f.scopes.size ≤ i → P i
  placed : ∀ τ ∈ τs, τ < f.scopes.size
  around : ∀ τ ∈ τs, ∀ i, f.Encloses i τ → P i

theorem Ready.after (h : Ready P f τs) (touches : Touches P f f') : Ready P f' τs where
  homed := touches.homed h.homed
  fresh := by
    intro i le
    exact h.fresh i (Nat.le_trans touches.size le)
  placed := by
    intro τ mem
    exact Nat.lt_of_lt_of_le (h.placed τ mem) touches.size
  around := by
    intro τ mem i encloses
    exact h.around τ mem i (encloses.congr touches.around (h.placed τ mem))

theorem Ready.mono (h : Ready P f τs) (sub : τs' ⊆ τs) : Ready P f τs' where
  homed := h.homed
  fresh := h.fresh
  placed := by
    intro τ mem
    exact h.placed τ (sub mem)
  around := by
    intro τ mem
    exact h.around τ (sub mem)

/-- A function that is seen was declared in a scope around. -/
theorem Ready.callee {g : String} {c : Closure} (h : Ready P f τs) (mem : σ ∈ τs)
    (seen : f.getFunc σ g = some c) : Ready P f (c.scope :: τs) := by
  obtain ⟨j, encloses, bound⟩ := Forest.getFunc_eq_some seen
  cases h.homed j g c bound
  refine ⟨h.homed, h.fresh, ?_, ?_⟩
  · intro τ mem'
    rcases List.mem_cons.mp mem' with rfl | mem'
    · exact Nat.lt_of_le_of_lt encloses.le (h.placed σ mem)
    · exact h.placed τ mem'
  · intro τ mem' i encloses'
    rcases List.mem_cons.mp mem' with rfl | mem'
    · exact h.around σ mem i (encloses'.trans encloses)
    · exact h.around τ mem' i encloses'

/-! ### Elementary changes -/

theorem touches_setLocal (inP : P σ) (x : String) (v : Option Value) :
    Touches P f (f.setLocal σ x v) where
  size := Nat.le_of_eq (Forest.size_setLocal f σ x v).symm
  around := by
    intro i _
    exact Forest.around?_setLocal f σ x v i
  homed := by
    intro homed
    exact homed.setLocal σ x v
  others := by
    intro i other
    refine Forest.scopes_setLocal_of_ne f x v ?_
    rintro rfl
    exact other inP

theorem touches_setVar (h : Ready P f τs) (mem : σ ∈ τs) (x : String) (v : Option Value) :
    Touches P f (f.setVar σ x v) := by
  rw [Forest.setVar]
  refine touches_setLocal ?_ x v
  cases home : f.holder? σ x with
  | none => exact h.around σ mem σ .self
  | some j => exact h.around σ mem j (Forest.encloses_of_nearest? home)

theorem touches_setFunc {c : Closure} (inP : P σ) (g : String) (home : c.scope = σ) :
    Touches P f (f.setFunc σ g (some c)) where
  size := by simp [Forest.setFunc]
  around := by
    intro i _
    exact Forest.around?_setFunc f σ g (some c) i
  homed := by
    intro homed
    exact homed.setFunc g home
  others := by
    intro i other
    have ne : σ ≠ i := by
      rintro rfl
      exact other inP
    rw [Forest.setFunc, Array.getElem?_modify, if_neg ne]

theorem touches_child (h : Ready P f τs) (τ : Nat) : Touches P f (f.child τ).2 := by
  have old : ∀ i, i < f.scopes.size → (f.child τ).2.scopes[i]? = f.scopes[i]? :=
    fun i lt => Forest.scopes_child_of_lt lt
  refine ⟨by simp [Forest.child], ?_, fun homed => homed.child τ, ?_⟩
  · intro i lt
    rw [Forest.around?, Forest.around?, old i lt]
  · intro i other
    exact old i (Nat.lt_of_not_le fun le => other (h.fresh i le))

theorem Ready.child (h : Ready P f τs) (mem : τ ∈ τs) :
    Ready P (f.child τ).2 (f.scopes.size :: τs) := by
  have rest := h.after (touches_child h τ)
  refine ⟨rest.homed, rest.fresh, ?_, ?_⟩
  · intro τ' mem'
    rcases List.mem_cons.mp mem' with rfl | mem'
    · simp [Forest.child]
    · exact rest.placed τ' mem'
  · intro τ' mem' i encloses
    rcases List.mem_cons.mp mem' with rfl | mem'
    · rcases encloses.of_child (h.placed τ mem) with rfl | outer
      · exact h.fresh _ (Nat.le_refl _)
      · exact h.around τ mem i outer
    · exact rest.around τ' mem' i encloses

/-! ### Following the plans -/

/-- The scopes that a task runs in. -/
def Task.scopes : Task → List Nat
  | .expr σ _ | .exprs σ _ | .call σ _ _ _ | .stmt σ _ | .block σ _ | .stmts σ _ => [σ]
  | .rounds σ inner _ _ _ | .counted σ inner _ _ _ _ _ _ => [σ, inner]

/-- With some fuel every task touches only scopes in `P`. -/
def AllTouch (P : Nat → Prop) (n : Nat) : Prop :=
  ∀ (t : Task) (st : Store), Ready P st.forest t.scopes →
    Touches P st.forest (after (t.run n st)).forest

namespace Plan

/-- Following a plan from a store touches only scopes in `P`, and the tasks that it starts can rely
on what they need for this. -/
def Follows (P : Nat → Prop) (n : Nat) (p : Plan α) (st : Store) : Prop :=
  Touches P st.forest (after (p.exec (Task.run n) st)).forest ∧
    ∀ t st', Event.start t st' ∈ p.events (Task.run n) st → Ready P st'.forest t.scopes

/-- A plan to be followed in the scopes `τs`. -/
def Lexical (P : Nat → Prop) (n : Nat) (τs : List Nat) (p : Plan α) : Prop :=
  ∀ st, Ready P st.forest τs → p.Follows P n st

theorem lexical_act {x : Eval α}
    (touches : ∀ st, Ready P st.forest τs → Touches P st.forest (after (x st)).forest) :
    (act x).Lexical P n τs := by
  intro st ready
  refine ⟨touches st ready, fun t st' mem => ?_⟩
  cases List.mem_singleton.mp mem

theorem lexical_scopeless {x : Eval α} (scopeless : Scopeless x) : (act x).Lexical P n τs := by
  refine lexical_act fun st _ => ?_
  rw [scopeless st]
  exact .refl P st.forest

theorem lexical_eval {t : Task} (ih : AllTouch P n) (sub : t.scopes ⊆ τs) :
    (eval t).Lexical P n τs := by
  intro st ready
  refine ⟨ih t st (ready.mono sub), fun t' st' mem => ?_⟩
  rcases List.mem_cons.mp mem with same | mem
  · cases same
    exact ready.mono sub
  · cases List.mem_singleton.mp mem

/-- The evaluation of a task that runs in one scope. -/
theorem lexical_one {t : Task} (ih : AllTouch P n) (one : t.scopes = [σ]) (mem : σ ∈ τs) :
    (eval t).Lexical P n τs := by
  refine lexical_eval ih ?_
  rw [one]
  exact List.cons_subset.mpr ⟨mem, List.nil_subset τs⟩

theorem Lexical.bind {p : Plan α} {k : α → Plan β} (first : p.Lexical P n τs)
    (rest : ∀ a, (k a).Lexical P n τs) : (p.bind k).Lexical P n τs := by
  intro st ready
  obtain ⟨touches, starts⟩ := first st ready
  have next : ∀ a st₁, p.exec (Task.run n) st = .ok a st₁ →
      Touches P st.forest st₁.forest ∧ (k a).Follows P n st₁ := by
    intro a st₁ done
    rw [done] at touches
    exact ⟨touches, rest a st₁ (ready.after touches)⟩
  constructor
  · rw [exec]
    cases done : p.exec (Task.run n) st with
    | ok a st₁ =>
      obtain ⟨touches, follows⟩ := next a st₁ done
      rw [bind_of_ok done]
      exact touches.trans follows.1
    | error e st₁ =>
      rw [done] at touches
      rw [bind_of_error done]
      exact touches
  · intro t st' mem
    rcases mem_events_bind.mp mem with mem | ⟨a, st₁, done, mem⟩
    · exact starts t st' mem
    · exact (next a st₁ done).2.2 t st' mem

theorem lexical_get {k : Store → Plan α}
    (rest : ∀ st, Ready P st.forest τs → (k st).Follows P n st) :
    ((act get).bind k).Lexical P n τs := by
  intro st ready
  obtain ⟨touches, starts⟩ := rest st ready
  refine ⟨touches, fun t st' mem => ?_⟩
  rcases mem_events_bind.mp mem with mem | ⟨_, _, done, mem⟩
  · cases List.mem_singleton.mp mem
  · cases done
    exact starts t st' mem

/-- What follows the making of a scope runs in that scope too. -/
theorem lexical_child {k : Nat → Plan α} (mem : τ ∈ τs)
    (rest : ∀ inner, (k inner).Lexical P n (inner :: τs)) :
    ((act (childScope τ)).bind k).Lexical P n τs := by
  intro st ready
  obtain ⟨touches, starts⟩ := rest st.forest.scopes.size
    { st with forest := (st.forest.child τ).2 } (ready.child mem)
  refine ⟨(touches_child ready τ).trans touches, fun t st' mem => ?_⟩
  rcases mem_events_bind.mp mem with mem | ⟨inner, st₁, done, mem⟩
  · cases List.mem_singleton.mp mem
  · cases done
    exact starts t st' mem

theorem Lexical.returning {p : Plan Unit} (h : p.Lexical P n τs) :
    (Plan.returning p).Lexical P n τs := by
  intro st ready
  obtain ⟨touches, starts⟩ := h st ready
  refine ⟨?_, starts⟩
  rw [exec, Eval.returning]
  cases done : p.exec (Task.run n) st with
  | ok a st₁ =>
    rw [done] at touches
    exact touches
  | error e st₁ =>
    rw [done] at touches
    cases e <;> exact touches

theorem lexical_value (ih : AllTouch P n) (mem : σ ∈ τs) (e : Expr) :
    (value σ e).Lexical P n τs :=
  (lexical_one (t := .expr σ e) ih rfl mem).bind fun o =>
    lexical_scopeless (scopeless_demand o)

theorem lexical_setLocal (mem : σ ∈ τs) (x : String) (v : Option Value) :
    (act (setLocal σ x v)).Lexical P n τs :=
  lexical_act fun _ ready => touches_setLocal (ready.around σ mem σ .self) x v

theorem lexical_setVar (mem : σ ∈ τs) (x : String) (v : Option Value) :
    (act (setVar σ x v)).Lexical P n τs :=
  lexical_act fun _ ready => touches_setVar ready mem x v

theorem lexical_params (mem : σ ∈ τs) (ps : List Param) (vs : List (Option Value)) :
    (params σ ps vs).Lexical P n τs := by
  induction ps generalizing vs with
  | nil => exact lexical_scopeless (scopeless_pure ())
  | cons p ps ih =>
    cases vs with
    | nil => exact lexical_scopeless (scopeless_pure ())
    | cons v vs => exact (lexical_setLocal mem p.name v).bind fun _ => ih vs

/-- Storing a value under the name of a target. -/
theorem lexical_target {store : String → Eval Unit} (target : Expr)
    (stores : ∀ x, (act (store x)).Lexical P n τs) :
    (act (do store (← targetName target))).Lexical P n τs := by
  unfold targetName
  cases target.target? with
  | none => exact lexical_scopeless fun _ => rfl
  | some x => exact stores x

/-! ### The plans of tasks -/

theorem lexical_expr (ih : AllTouch P n) (σ : Nat) (e : Expr) :
    (Plan.expr σ e).Lexical P n [σ] := by
  have mem : σ ∈ [σ] := List.mem_singleton_self σ
  cases e with
  | integer value line =>
    rw [Plan.expr]
    split
    · exact lexical_scopeless (scopeless_pure _)
    · exact lexical_scopeless (scopeless_throw _)
  | real | text | bool => exact lexical_scopeless (scopeless_pure _)
  | group e line => exact lexical_one (t := .expr σ e) ih rfl mem
  | name x line =>
    refine lexical_scopeless ?_
    rw [map_eq_pure_bind]
    exact (scopeless_lookup σ x line).bind fun v => scopeless_pure (some v)
  | binary op left right line =>
    exact (lexical_value ih mem left).bind fun a => (lexical_value ih mem right).bind fun b =>
      lexical_scopeless (scopeless_binary op a b line)
  | unary op operand line =>
    exact (lexical_value ih mem operand).bind fun v => lexical_scopeless (scopeless_unary op v)
  | logical op left right line =>
    refine (lexical_value ih mem left).bind fun a => ?_
    split
    · exact lexical_scopeless (scopeless_pure _)
    · exact lexical_one (t := .expr σ right) ih rfl mem
  | call f args line => exact lexical_one (t := .call σ f args line) ih rfl mem

theorem lexical_exprs (ih : AllTouch P n) (σ : Nat) (es : List Expr) :
    (Plan.exprs σ es).Lexical P n [σ] := by
  have mem : σ ∈ [σ] := List.mem_singleton_self σ
  cases es with
  | nil => exact lexical_scopeless (scopeless_pure [])
  | cons e es =>
    exact (lexical_one (t := .expr σ e) ih rfl mem).bind fun v =>
      (lexical_one (t := .exprs σ es) ih rfl mem).bind fun vs =>
        lexical_scopeless (scopeless_pure (v :: vs))

theorem lexical_call (ih : AllTouch P n) (σ : Nat) (f : String) (args : List Expr) (line : Line) :
    (Plan.call σ f args line).Lexical P n [σ] := by
  have mem : σ ∈ [σ] := List.mem_singleton_self σ
  refine lexical_get fun st ready => ?_
  cases seen : st.forest.getFunc σ f with
  | none => exact lexical_scopeless (scopeless_throw _) st ready
  | some g =>
    dsimp only
    split
    · exact lexical_scopeless (scopeless_throw _) st ready
    · -- The body runs inside the scope of the declaration, which lies around `σ`.
      refine Lexical.bind (lexical_one (t := .exprs σ args) ih rfl ?_) (fun values => ?_) st
        (ready.callee mem seen)
      · exact List.mem_cons_of_mem _ mem
      · refine lexical_child List.mem_cons_self fun inner => ?_
        exact (lexical_params List.mem_cons_self g.params values).bind fun _ =>
          (lexical_one (t := .block inner g.body) ih rfl List.mem_cons_self).returning

theorem lexical_branch (ih : AllTouch P n) (σ : Nat) (test : Expr) (thenBlock : Block)
    (elseBlock : Option Block) (line : Line) :
    (Plan.stmt σ (.branch test thenBlock elseBlock line)).Lexical P n [σ] := by
  have mem : σ ∈ [σ] := List.mem_singleton_self σ
  refine (lexical_value ih mem test).bind fun v => ?_
  split
  · refine lexical_child mem fun inner => ?_
    split
    · exact lexical_one (t := .block inner thenBlock) ih rfl List.mem_cons_self
    · cases elseBlock with
      | none => exact lexical_scopeless (scopeless_pure ())
      | some b => exact lexical_one (t := .block inner b) ih rfl List.mem_cons_self
  · exact lexical_scopeless (scopeless_throw _)

theorem lexical_count (ih : AllTouch P n) (σ : Nat) (var : String) (varLine : Line)
    (start stop : Expr) (step : Option Expr) (body : Block) (line : Line) :
    (Plan.stmt σ (.count var varLine start stop step body line)).Lexical P n [σ] := by
  have mem : σ ∈ [σ] := List.mem_singleton_self σ
  refine (lexical_value ih mem start).bind fun i => (lexical_value ih mem stop).bind fun last =>
    lexical_child mem fun inner =>
      (lexical_scopeless (scopeless_lift _)).bind fun upward => Lexical.bind ?_ fun delta => ?_
  · cases step with
    | none => exact lexical_scopeless (scopeless_pure _)
    | some e =>
      exact (lexical_value ih (List.mem_cons_of_mem inner mem) e).bind fun v =>
        lexical_scopeless (scopeless_pure v.datum)
  · exact lexical_eval ih (List.Perm.swap inner σ []).subset

theorem lexical_stmt (ih : AllTouch P n) (σ : Nat) (s : Stmt) :
    (Plan.stmt σ s).Lexical P n [σ] := by
  have mem : σ ∈ [σ] := List.mem_singleton_self σ
  cases s with
  | print value ending line =>
    exact (lexical_value ih mem value).bind fun v =>
      lexical_scopeless (scopeless_print v.datum ending)
  | assign target value line =>
    exact (lexical_value ih mem value).bind fun v =>
      lexical_target target fun x => lexical_setVar mem x (some v)
  | assignLocal target value line =>
    exact (lexical_value ih mem value).bind fun v =>
      lexical_target target fun x => lexical_setLocal mem x (some v)
  | branch test thenBlock elseBlock line => exact lexical_branch ih σ test thenBlock elseBlock line
  | loop test body line =>
    exact lexical_child mem fun inner => lexical_eval ih (List.Perm.swap inner σ []).subset
  | count var varLine start stop step body line =>
    exact lexical_count ih σ var varLine start stop step body line
  | func name params body line =>
    exact lexical_act fun _ ready => touches_setFunc (ready.around σ mem σ .self) name rfl
  | call f args line =>
    exact (lexical_one (t := .call σ f args line) ih rfl mem).bind fun _ =>
      lexical_scopeless (scopeless_pure ())
  | ret value line =>
    exact (lexical_one (t := .expr σ value) ih rfl mem).bind fun _ =>
      lexical_scopeless (scopeless_throw _)

theorem lexical_stmts (ih : AllTouch P n) (σ : Nat) (ss : List Stmt) :
    (Plan.stmts σ ss).Lexical P n [σ] := by
  have mem : σ ∈ [σ] := List.mem_singleton_self σ
  cases ss with
  | nil => exact lexical_scopeless (scopeless_pure ())
  | cons s ss =>
    exact (lexical_one (t := .stmt σ s) ih rfl mem).bind fun _ =>
      lexical_one (t := .stmts σ ss) ih rfl mem

theorem lexical_rounds (ih : AllTouch P n) (σ inner : Nat) (test : Expr) (body : Block)
    (line : Line) : (Plan.rounds σ inner test body line).Lexical P n [σ, inner] := by
  have mem : inner ∈ [σ, inner] := List.mem_cons_of_mem σ (List.mem_singleton_self inner)
  refine (lexical_value ih List.mem_cons_self test).bind fun v => ?_
  split
  · split
    · exact (lexical_one (t := .block inner body) ih rfl mem).bind fun _ =>
        lexical_eval (t := .rounds σ inner test body line) ih (List.Subset.refl _)
    · exact lexical_scopeless (scopeless_pure ())
  · exact lexical_scopeless (scopeless_throw _)

theorem lexical_counted (ih : AllTouch P n) (σ inner : Nat) (var : String) (c : Comparison)
    (last step : Datum) (body : Block) (i : Datum) :
    (Plan.counted σ inner var c last step body i).Lexical P n [σ, inner] := by
  have mem : inner ∈ [σ, inner] := List.mem_cons_of_mem σ (List.mem_singleton_self inner)
  refine (lexical_scopeless (scopeless_lift _)).bind fun more => ?_
  split
  · exact (lexical_setVar List.mem_cons_self var _).bind fun _ =>
      (lexical_one (t := .block inner body) ih rfl mem).bind fun _ =>
        (lexical_scopeless (scopeless_lift _)).bind fun next =>
          lexical_eval (t := .counted σ inner var c last step body next) ih (List.Subset.refl _)
  · exact lexical_scopeless (scopeless_pure ())

end Plan

theorem Task.lexical (ih : AllTouch P n) (t : Task) : t.plan.Lexical P n t.scopes := by
  cases t with
  | expr σ e => exact Plan.lexical_expr ih σ e
  | exprs σ es => exact Plan.lexical_exprs ih σ es
  | call σ f args line => exact Plan.lexical_call ih σ f args line
  | stmt σ s => exact Plan.lexical_stmt ih σ s
  | block σ b =>
    exact Plan.lexical_one (t := .stmts σ b.stmts) ih rfl (List.mem_singleton_self σ)
  | stmts σ ss => exact Plan.lexical_stmts ih σ ss
  | rounds σ inner test body line => exact Plan.lexical_rounds ih σ inner test body line
  | counted σ inner var c last step body i =>
    exact Plan.lexical_counted ih σ inner var c last step body i

-- By induction on the fuel: a task starts only tasks that have less.
theorem allTouch (P : Nat → Prop) (n : Nat) : AllTouch P n := by
  induction n with
  | zero =>
    intro t st _
    rw [Task.run_zero]
    exact .refl P st.forest
  | succ n ih =>
    intro t st ready
    rw [Task.run_succ]
    exact (t.lexical ih st ready).1

/-! ### Moments of a run -/

/-- Functions are bound where they were declared, and the scopes that the task runs in are there. -/
structure Moment.Lexical (m : Moment) : Prop where
  homed : m.store.forest.Homed
  placed : ∀ τ ∈ m.task.scopes, τ < m.store.forest.scopes.size

theorem Moment.Lexical.ready {m : Moment} (h : m.Lexical) :
    Ready (fun _ => True) m.store.forest m.task.scopes :=
  ⟨h.homed, fun _ _ => trivial, h.placed, fun _ _ _ _ => trivial⟩

theorem Starts.lexical {m m' : Moment} (h : Starts m m') (lexical : m.Lexical) : m'.Lexical := by
  cases h with
  | intro mem =>
    have ready := (Task.lexical (allTouch _ _) _ _ lexical.ready).2 _ _ mem
    exact ⟨ready.homed, ready.placed⟩

/-- If a run starts in a lexical moment, then it goes through lexical moments only. -/
theorem Reaches.lexical {m m' : Moment} (h : Reaches m m') (lexical : m.Lexical) : m'.Lexical := by
  induction h with
  | refl m => exact lexical
  | step starts _ ih => exact ih (starts.lexical lexical)

/-- The evaluation of a program in the empty store starts in a lexical moment. -/
theorem lexical_empty (n : Nat) (b : Block) : Moment.Lexical ⟨n, .block 0 b, .empty⟩ where
  homed := by
    intro i g c bound
    cases i with
    | zero => cases bound
    | succ i => cases bound
  placed := by
    intro τ mem
    rw [List.mem_singleton.mp mem]
    exact Nat.zero_lt_one

/-- A scope that encloses none of the scopes that a task runs in stays exactly as it is. -/
theorem Task.untouched {t : Task} (lexical : Moment.Lexical ⟨n, t, st⟩)
    (lt : i < st.forest.scopes.size) (outside : ∀ τ ∈ t.scopes, ¬st.forest.Encloses i τ) :
    (after (t.run n st)).forest.scopes[i]? = st.forest.scopes[i]? := by
  have ready : Ready (· ≠ i) st.forest t.scopes := by
    refine ⟨lexical.homed, ?_, lexical.placed, ?_⟩
    · rintro j le rfl
      exact Nat.not_lt.mpr le lt
    · rintro τ mem j encloses rfl
      exact outside τ mem encloses
  exact (allTouch _ n t st ready).others i fun ne => ne rfl

end Eval

end ScriptLang
