import ScriptLang.Proofs.Eval.Results
import ScriptLang.Proofs.Scope.Confined
import ScriptLang.Proofs.Tree.Shape

/-!
Which names a part of a program may bind, and where.

A part that runs in a scope binds names in that scope only: a statement the name that it assigns to,
counts in or declares, an expression none. All that happens in inner blocks and in called functions
happens in scopes that are new. This holds however the evaluation ends, also if it stops in the
middle of a block (`program_confined`).
-/

namespace ScriptLang

/-- The variables that a statement may bind in its own scope. -/
def Stmt.mayBind : Stmt → List String
  | .assign target _ _ | .assignLocal target _ _ => target.target?.toList
  | .count var _ _ _ _ _ _ => [var]
  | _ => []

/-- The variables that a program or a part of one may bind in its own scope. -/
def Program.mayBind : Program → List String
  | .stmt s => s.mayBind
  | .block b => b.stmts.flatMap Stmt.mayBind
  | .expr _ | .inert => []

/-- The functions that a program or a part of one may bind in its own scope. -/
def Program.mayDeclare : Program → List String
  | .stmt s => s.funcName?.toList
  | .block b => b.funcNames
  | .expr _ | .inert => []

namespace Eval

open Forest (Confined confined_child confined_setLocal confined_setVar confined_setFunc)

variable {α β : Type} {x : Eval α} {k : α → Eval β} {st : Store} {n σ τ : Nat}
  {xs fs : List String}

/-- The store that an evaluation leaves, however it ends. -/
def after : EStateM.Result Stop Store α → Store
  | .ok _ st | .error _ st => st

/-- Of the first `n` scopes a computation binds new names in scope `σ` at most, variables of `xs`
and functions of `fs`. -/
def Within (n σ : Nat) (xs fs : List String) (x : Eval α) : Prop :=
  ∀ st, n ≤ st.forest.scopes.size → Confined n σ xs fs st.forest (after (x st)).forest

/-- A computation leaves the scopes as they are. -/
def Scopeless (x : Eval α) : Prop := ∀ st, (after (x st)).forest = st.forest

theorem Scopeless.within (h : Scopeless x) : Within n σ xs fs x := by
  intro st _
  rw [h st]
  exact .refl n σ xs fs st.forest

theorem Within.mono {xs' fs' : List String} (h : Within n σ xs fs x) (sub : xs ⊆ xs')
    (sub' : fs ⊆ fs') : Within n σ xs' fs' x := by
  intro st le
  exact (h st le).mono sub sub'

theorem Within.allow (h : Within n σ [] [] x) : Within n σ xs fs x :=
  h.mono (List.nil_subset xs) (List.nil_subset fs)

/-- What is confined to a later scope binds no name in the first `n`. -/
theorem Within.later {ys gs : List String} (h : Within n τ ys gs x) (le : n ≤ τ) :
    Within n σ xs fs x := by
  intro st size
  exact (h st size).later le

theorem Within.bind (first : Within n σ xs fs x) (rest : ∀ a, Within n σ xs fs (k a)) :
    Within n σ xs fs (x >>= k) := by
  intro st le
  have confined := first st le
  cases done : x st with
  | ok a st₁ =>
    rw [done] at confined
    rw [bind_of_ok done]
    exact confined.trans (rest a st₁ (Nat.le_trans le confined.size))
  | error e st₁ =>
    rw [done] at confined
    rw [bind_of_error done]
    exact confined

theorem Within.map (first : Within n σ xs fs x) (g : α → β) : Within n σ xs fs (g <$> x) := by
  rw [map_eq_pure_bind]
  refine first.bind fun a => Scopeless.within ?_
  intro st
  rfl

/-! ### Steps that leave the scopes alone -/

theorem scopeless_pure (a : α) : Scopeless (pure a : Eval α) := fun _ => rfl

theorem scopeless_throw (e : Stop) : Scopeless (throw e : Eval α) := fun _ => rfl

theorem Scopeless.bind (first : Scopeless x) (rest : ∀ a, Scopeless (k a)) :
    Scopeless (x >>= k) := by
  intro st
  have same := first st
  cases done : x st with
  | ok a st₁ =>
    rw [done] at same
    rw [bind_of_ok done]
    exact (rest a st₁).trans same
  | error e st₁ =>
    rw [done] at same
    rw [bind_of_error done]
    exact same

theorem scopeless_lift (r : Except Fault α) : Scopeless (lift r) := by
  cases r with
  | ok a => exact scopeless_pure a
  | error f => exact scopeless_throw _

theorem scopeless_demand (o : Option Value) : Scopeless (demand o) := by
  cases o with
  | some v => exact scopeless_pure v
  | none => exact scopeless_throw _

theorem scopeless_lookup (σ : Nat) (name : String) (line : Line) :
    Scopeless (lookup σ name line) := by
  intro st
  unfold lookup
  rw [get_bind]
  cases st.forest.getVar σ name with
  | none => rfl
  | some v => cases datum : v.datum <;> simp only [datum] <;> rfl

theorem scopeless_binary (op : Token) (a b : Value) (line : Line) :
    Scopeless (binary op a b line) := by
  unfold binary
  split
  · exact scopeless_pure none
  · split
    · exact scopeless_throw _
    · split
      · exact scopeless_pure _
      · exact scopeless_throw _
      · exact scopeless_throw _

theorem scopeless_unary (op : Token) (v : Value) : Scopeless (unary op v) := by
  unfold unary
  split
  · split
    · exact scopeless_pure _
    · exact scopeless_throw _
    · exact scopeless_throw _
  · split
    · exact scopeless_pure _
    · exact scopeless_throw _
  · split
    · exact scopeless_pure _
    · exact scopeless_throw _
  · exact scopeless_pure none

theorem scopeless_print (d ending : Datum) : Scopeless (print d ending) := by
  refine (scopeless_lift _).bind fun text => ?_
  split
  · intro st
    rfl
  · intro st
    rfl
  · exact scopeless_throw _

/-! ### Steps that bind names -/

theorem within_setVar (n σ : Nat) (name : String) (v : Option Value) :
    Within n σ [name] [] (setVar σ name v) := by
  intro st _
  exact confined_setVar st.forest n σ name v

theorem within_setLocal (n σ : Nat) (name : String) (v : Option Value) :
    Within n σ [name] [] (setLocal σ name v) := by
  intro st _
  exact confined_setLocal st.forest n σ name v

/-- A new scope comes after all that are there. -/
theorem Within.child {k : Nat → Eval β} (rest : ∀ inner, n ≤ inner → Within n σ xs fs (k inner)) :
    Within n σ xs fs (childScope τ >>= k) := by
  intro st le
  have child : Confined n σ xs fs st.forest (st.forest.child τ).2 := confined_child le
  exact child.trans (rest _ le { st with forest := (st.forest.child τ).2 }
    (Nat.le_trans le child.size))

theorem within_bindParams (le : n ≤ τ) (ps : List Param) (vs : List (Option Value)) :
    Within n σ xs fs (bindParams τ ps vs) := by
  induction ps generalizing vs with
  | nil => exact (scopeless_pure ()).within
  | cons p ps ih =>
    cases vs with
    | nil => exact (scopeless_pure ()).within
    | cons v vs => exact ((within_setLocal n τ p.name v).later le).bind fun _ => ih vs

theorem Within.returning {body : Eval Unit} (h : Within n σ xs fs body) :
    Within n σ xs fs (returning body) := by
  intro st le
  have confined := h st le
  unfold Eval.returning
  cases done : body st with
  | ok a st₁ =>
    rw [done] at confined
    exact confined
  | error e st₁ =>
    rw [done] at confined
    cases e <;> exact confined

/-- The value that is needed from a computation, and what is done with it. -/
theorem Within.demand_bind {x : Eval (Option Value)} {k : Value → Eval β}
    (first : Within n σ xs fs x) (rest : ∀ v, Within n σ xs fs (k v)) :
    Within n σ xs fs (do let o ← x; let v ← demand o; k v) :=
  first.bind fun o => (scopeless_demand o).within.bind rest

/-- Storing a value under the name of a target. -/
theorem within_target {store : String → Eval Unit} (target : Expr)
    (stores : ∀ name, Within n σ [name] [] (store name)) :
    Within n σ target.target?.toList [] (do store (← targetName target)) := by
  unfold targetName
  cases found : target.target? with
  | none =>
    intro st _
    exact .refl n σ [] [] st.forest
  | some name => exact stores name

/-! ### Parts of programs -/

/-- What parts of programs may bind when they run with some fuel. The body of a loop runs in a scope
of its own. -/
structure Tidy (fuel : Nat) : Prop where
  expr : ∀ {n} σ e, Within n σ [] [] (expr fuel σ e)
  exprs : ∀ {n} σ es, Within n σ [] [] (exprs fuel σ es)
  call : ∀ {n} σ f es line, Within n σ [] [] (call fuel σ f es line)
  stmt : ∀ {n} σ s, Within n σ s.mayBind s.funcName?.toList (stmt fuel σ s)
  block : ∀ {n} σ b,
    Within n σ (b.stmts.flatMap Stmt.mayBind) b.funcNames (block fuel σ b)
  stmts : ∀ {n} σ ss,
    Within n σ (ss.flatMap Stmt.mayBind) (ss.filterMap Stmt.funcName?) (stmts fuel σ ss)
  rounds : ∀ {n} σ inner test body line, n ≤ inner →
    Within n σ [] [] (rounds fuel σ inner test body line)
  counted : ∀ {n} σ inner var c last step body i, n ≤ inner →
    Within n σ [var] [] (counted fuel σ inner var c last step body i)

variable {fuel : Nat}

theorem tidy_zero : Tidy 0 := by
  constructor <;> intros
  · rw [expr]
    exact (scopeless_throw _).within
  · rw [exprs]
    exact (scopeless_throw _).within
  · rw [call]
    exact (scopeless_throw _).within
  · rw [stmt]
    exact (scopeless_throw _).within
  · rw [block]
    exact (scopeless_throw _).within
  · rw [stmts]
    exact (scopeless_throw _).within
  · rw [rounds]
    exact (scopeless_throw _).within
  · rw [counted]
    exact (scopeless_throw _).within

theorem Tidy.expr_succ (ih : Tidy fuel) (σ : Nat) (e : Expr) :
    Within n σ [] [] (Eval.expr (fuel + 1) σ e) := by
  cases e with
  | integer value line =>
    rw [Eval.expr]
    split
    · exact (scopeless_pure _).within
    · exact (scopeless_throw _).within
  | real | text | bool =>
    rw [Eval.expr]
    exact (scopeless_pure _).within
  | group inner line =>
    rw [Eval.expr]
    exact ih.expr σ inner
  | name x line =>
    rw [Eval.expr]
    exact (scopeless_lookup σ x line).within.map _
  | binary op left right line =>
    rw [Eval.expr]
    exact (ih.expr σ left).demand_bind fun a => (ih.expr σ right).demand_bind fun b =>
      (scopeless_binary op a b line).within
  | unary op operand line =>
    rw [Eval.expr]
    exact (ih.expr σ operand).demand_bind fun v => (scopeless_unary op v).within
  | logical op left right line =>
    rw [Eval.expr]
    refine (ih.expr σ left).demand_bind fun a => ?_
    split
    · exact (scopeless_pure _).within
    · exact ih.expr σ right
  | call f args line =>
    rw [Eval.expr]
    exact ih.call σ f args line

theorem Tidy.call_succ (ih : Tidy fuel) (σ : Nat) (f : String) (es : List Expr) (line : Line) :
    Within n σ [] [] (Eval.call (fuel + 1) σ f es line) := by
  intro st le
  rw [Eval.call, get_bind]
  cases st.forest.getFunc σ f with
  | none => exact (scopeless_throw _).within st le
  | some g =>
    dsimp only
    split
    · exact (scopeless_throw _).within st le
    · -- The body runs in a new scope, wherever its function was declared.
      refine Within.bind (ih.exprs σ es) (fun vs => .child fun inner later => ?_) st le
      exact (within_bindParams later g.params vs).bind fun _ =>
        ((ih.block inner g.body).later later).returning

theorem Tidy.branch_succ (ih : Tidy fuel) (σ : Nat) (test : Expr) (thenBlock : Block)
    (elseBlock : Option Block) (line : Line) :
    Within n σ [] [] (Eval.stmt (fuel + 1) σ (.branch test thenBlock elseBlock line)) := by
  rw [Eval.stmt]
  refine (ih.expr σ test).demand_bind fun v => ?_
  cases v.tag with
  | bool =>
    refine .child fun inner later => ?_
    split
    · exact (ih.block inner thenBlock).later later
    · cases elseBlock with
      | none => exact (scopeless_pure ()).within
      | some b => exact (ih.block inner b).later later
  | _ => exact (scopeless_throw _).within

theorem Tidy.count_succ (ih : Tidy fuel) (σ : Nat) (var : String) (varLine : Line)
    (start stop : Expr) (step : Option Expr) (body : Block) (line : Line) :
    Within n σ [var] []
      (Eval.stmt (fuel + 1) σ (.count var varLine start stop step body line)) := by
  rw [Eval.stmt]
  refine (ih.expr σ start).allow.demand_bind fun i => (ih.expr σ stop).allow.demand_bind fun last =>
    .child fun inner later => (scopeless_lift _).within.bind fun upward => ?_
  cases step with
  | none =>
    exact (scopeless_pure _).within.bind fun delta =>
      ih.counted σ inner var _ _ delta body _ later
  | some e =>
    have value : Within n σ [] [] (do demand (← Eval.expr fuel σ e)) :=
      (ih.expr σ e).bind fun o => (scopeless_demand o).within
    exact (value.map Value.datum).allow.bind fun delta =>
      ih.counted σ inner var _ _ delta body _ later

theorem Tidy.stmt_succ (ih : Tidy fuel) (σ : Nat) (s : Stmt) :
    Within n σ s.mayBind s.funcName?.toList (Eval.stmt (fuel + 1) σ s) := by
  cases s with
  | print value ending line =>
    rw [Eval.stmt]
    exact (ih.expr σ value).demand_bind fun v => (scopeless_print v.datum ending).within
  | assign target value line =>
    rw [Eval.stmt]
    exact (ih.expr σ value).allow.demand_bind fun v =>
      within_target target fun name => within_setVar n σ name (some v)
  | assignLocal target value line =>
    rw [Eval.stmt]
    exact (ih.expr σ value).allow.demand_bind fun v =>
      within_target target fun name => within_setLocal n σ name (some v)
  | branch test thenBlock elseBlock line => exact ih.branch_succ σ test thenBlock elseBlock line
  | loop test body line =>
    rw [Eval.stmt]
    exact .child fun inner later => ih.rounds σ inner test body line later
  | count var varLine start stop step body line =>
    exact ih.count_succ σ var varLine start stop step body line
  | func name params body line =>
    rw [Eval.stmt]
    intro st _
    exact confined_setFunc st.forest n σ name _
  | call f args line =>
    rw [Eval.stmt]
    exact (ih.call σ f args line).bind fun _ => (scopeless_pure ()).within
  | ret value line =>
    rw [Eval.stmt]
    exact (ih.expr σ value).bind fun v => (scopeless_throw _).within

theorem Tidy.stmts_succ (ih : Tidy fuel) (σ : Nat) (ss : List Stmt) :
    Within n σ (ss.flatMap Stmt.mayBind) (ss.filterMap Stmt.funcName?)
      (Eval.stmts (fuel + 1) σ ss) := by
  cases ss with
  | nil =>
    rw [Eval.stmts]
    exact (scopeless_pure ()).within
  | cons s ss =>
    rw [Eval.stmts]
    refine Within.bind ((ih.stmt σ s).mono ?_ ?_) fun _ => (ih.stmts σ ss).mono ?_ ?_
    · rw [List.flatMap_cons]
      exact List.subset_append_left _ _
    · intro g mem
      rw [Option.mem_toList] at mem
      exact List.mem_filterMap.mpr ⟨s, List.mem_cons_self, mem⟩
    · rw [List.flatMap_cons]
      exact List.subset_append_right _ _
    · exact List.filterMap_subset _ (List.subset_cons_self s ss)

theorem Tidy.rounds_succ (ih : Tidy fuel) (σ inner : Nat) (test : Expr) (body : Block)
    (line : Line) (later : n ≤ inner) :
    Within n σ [] [] (Eval.rounds (fuel + 1) σ inner test body line) := by
  rw [Eval.rounds]
  refine (ih.expr σ test).demand_bind fun v => ?_
  cases v.tag with
  | bool =>
    dsimp only
    split
    · exact ((ih.block inner body).later later).bind fun _ =>
        ih.rounds σ inner test body line later
    · exact (scopeless_pure ()).within
  | _ => exact (scopeless_throw _).within

theorem Tidy.counted_succ (ih : Tidy fuel) (σ inner : Nat) (var : String) (c : Comparison)
    (last step : Datum) (body : Block) (i : Datum) (later : n ≤ inner) :
    Within n σ [var] [] (Eval.counted (fuel + 1) σ inner var c last step body i) := by
  rw [Eval.counted]
  refine (scopeless_lift _).within.bind fun more => ?_
  split
  · exact (within_setVar n σ var _).bind fun _ => ((ih.block inner body).later later).bind fun _ =>
      (scopeless_lift _).within.bind fun next =>
        ih.counted σ inner var c last step body next later
  · exact (scopeless_pure ()).within

/-- One more level of the evaluation keeps to its scope if all levels below do. -/
theorem tidy (fuel : Nat) : Tidy fuel := by
  induction fuel with
  | zero => exact tidy_zero
  | succ fuel ih =>
    refine ⟨ih.expr_succ, ?_, ih.call_succ, ih.stmt_succ, ?_, ih.stmts_succ, ih.rounds_succ,
      ih.counted_succ⟩
    · intro n σ es
      cases es with
      | nil =>
        rw [exprs]
        exact (scopeless_pure []).within
      | cons e es =>
        rw [exprs]
        exact (ih.expr σ e).bind fun v => (ih.exprs σ es).bind fun vs =>
          (scopeless_pure (v :: vs)).within
    · intro n σ b
      rw [block]
      exact ih.stmts σ b.stmts

/-- Evaluating a program or a part of one in scope `σ` leaves every other scope that was there its
names, its functions and its place, and binds no name in scope `σ` but those that the part itself
assigns to, counts in or declares, whether it ends normally, returns a value, fails or runs out of
fuel. -/
theorem program_confined (fuel σ : Nat) (p : Program) (st : Store) :
    Confined st.forest.scopes.size σ p.mayBind p.mayDeclare st.forest
      (after (program fuel σ p st)).forest := by
  have tidy := tidy fuel
  have within : Within st.forest.scopes.size σ p.mayBind p.mayDeclare (program fuel σ p) := by
    cases p with
    | expr e => exact tidy.expr σ e
    | stmt s => exact (tidy.stmt σ s).map _
    | block b => exact (tidy.block σ b).map _
    | inert => exact (scopeless_pure none).within
  exact within st (Nat.le_refl _)

end Eval

end ScriptLang
