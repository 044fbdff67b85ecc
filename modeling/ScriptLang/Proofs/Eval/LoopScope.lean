import Mathlib
import ScriptLang.Proofs.Eval.Course
import ScriptLang.Proofs.Eval.Lexical
import ScriptLang.Workload

/-!
The scope of the body of a loop.

All rounds of a loop share one scope for the body. It is empty at the first start of the body; at
each later one it is exactly as the execution before has left it, since what comes between, the
test, runs outside of it. So a name that the body has bound there is seen in the next round,
whatever is seen outside of the loop (`loop_body_scope`).
-/

namespace ScriptLang.Eval

variable {n σ inner : Nat} {test : Expr} {body : Block} {line : Line} {st st' st₁ : Store}

/-- A task that executes a block. -/
def Task.isBlock : Task → Bool
  | .block _ _ => true
  | _ => false

/-- The stores at the starts of the blocks among the parts of a task, in their order. For a loop
these are the starts of its body. -/
def Task.bodies (n : Nat) (t : Task) (st : Store) : List Store :=
  ((t.parts n st).filter fun p => p.1.isBlock).map Prod.snd

/-- In the second store scope `inner` is exactly as an execution of the body from the first store
has left it. -/
def LeftTo (inner : Nat) (body : Block) (st st' : Store) : Prop :=
  ∃ st₁, (Task.block inner body).Completes st () st₁ ∧
    st'.forest.scopes[inner]? = st₁.forest.scopes[inner]?

/-! ### Round by round -/

/-- The test of a loop yields the truth value true and leaves the store `st₁`. -/
def Passes (n σ : Nat) (test : Expr) (st st₁ : Store) : Prop :=
  ∃ v, expr n σ test st = .ok (some v) st₁ ∧ v.tag = .bool ∧ v.datum.truthy = true

theorem parts_of_passes (passes : Passes n σ test st st₁) :
    (Task.rounds σ inner test body line).parts (n + 1) st = (.expr σ test, st) ::
      ((Plan.eval (.block inner body)).bind fun _ =>
        .eval (.rounds σ inner test body line)).parts n st₁ := by
  obtain ⟨v, tested, bool, truthy⟩ := passes
  rw [Task.parts_succ, Task.plan, Plan.rounds, Plan.parts_bind_of_ok (Plan.exec_value.mpr tested),
    Plan.parts_value, bool, truthy]
  rfl

/-- If the test is passed and the body ends, then the rounds from there on follow. -/
theorem bodies_of_ends {st₂ : Store} (passes : Passes n σ test st st₁)
    (ends : block n inner body st₁ = .ok () st₂) :
    (Task.rounds σ inner test body line).bodies (n + 1) st =
      st₁ :: (Task.rounds σ inner test body line).bodies n st₂ := by
  rw [Task.bodies, parts_of_passes passes,
    Plan.parts_bind_of_ok (p := .eval (.block inner body)) ends,
    Plan.parts_eval rfl, Plan.parts_eval_round rfl]
  rfl

/-- If the test is passed and the body stops, then the loop stops. -/
theorem bodies_of_stops {e : Stop} {st₂ : Store} (passes : Passes n σ test st st₁)
    (stops : block n inner body st₁ = .error e st₂) :
    (Task.rounds σ inner test body line).bodies (n + 1) st = [st₁] := by
  rw [Task.bodies, parts_of_passes passes,
    Plan.parts_bind_of_error (p := .eval (.block inner body)) stops, Plan.parts_eval rfl]
  rfl

/-- If the test is not passed, then the body does not start. -/
theorem bodies_of_not_passes (never : ∀ st₁, ¬Passes n σ test st st₁) :
    (Task.rounds σ inner test body line).bodies (n + 1) st = [] := by
  rw [Task.bodies, Task.parts_succ, Task.plan, Plan.rounds]
  cases tested : (Plan.value σ test).exec (Task.run n) st with
  | error e st₁ =>
    rw [Plan.parts_bind_of_error tested, Plan.parts_value]
    rfl
  | ok v st₁ =>
    rw [Plan.parts_bind_of_ok tested, Plan.parts_value]
    split
    · rename_i bool
      split
      · rename_i truthy
        exact absurd ⟨v, Plan.exec_value.mp tested, bool, truthy⟩ (never st₁)
      · rfl
    · rfl

/-- The test of a loop leaves the scope of the body as it is. -/
theorem Passes.leaves_body (passes : Passes n σ test st st₁) (lt : σ < inner)
    (ready : Ready (fun _ => True) st.forest [σ, inner]) :
    st₁.forest.scopes[inner]? = st.forest.scopes[inner]? := by
  obtain ⟨v, tested, -, -⟩ := passes
  have lexical : Moment.Lexical ⟨n, .expr σ test, st⟩ := by
    refine ⟨ready.homed, fun τ mem => ready.placed τ ?_⟩
    exact List.mem_cons.mpr (.inl (List.mem_singleton.mp mem))
  have outside : ∀ τ ∈ [σ], ¬st.forest.Encloses inner τ := by
    intro τ mem encloses
    rw [List.mem_singleton.mp mem] at encloses
    exact Nat.not_lt.mpr encloses.le lt
  have same := Task.untouched lexical (ready.placed inner (by simp)) outside
  rw [Task.run, tested] at same
  exact same

/-- The scopes of a loop are there also after a round. -/
theorem Passes.ready {st₂ : Store} (passes : Passes n σ test st st₁)
    (ends : block n inner body st₁ = .ok () st₂)
    (ready : Ready (fun _ => True) st.forest [σ, inner]) :
    Ready (fun _ => True) st₂.forest [σ, inner] := by
  obtain ⟨v, tested, -, -⟩ := passes
  have first := allTouch _ n (.expr σ test) st (ready.mono (by simp [Task.scopes]))
  rw [Task.run, tested] at first
  replace ready := ready.after first
  have second := allTouch _ n (.block inner body) st₁ (ready.mono (by simp [Task.scopes]))
  rw [Task.run, ends] at second
  exact ready.after second

theorem rounds_chain (n : Nat) (test : Expr) (body : Block) (line : Line)
    (ready : Ready (fun _ => True) st.forest [σ, inner]) (lt : σ < inner) :
    (∀ s ∈ ((Task.rounds σ inner test body line).bodies n st).head?,
        s.forest.scopes[inner]? = st.forest.scopes[inner]?) ∧
      ((Task.rounds σ inner test body line).bodies n st).IsChain (LeftTo inner body) := by
  induction n generalizing st with
  | zero => exact ⟨fun s mem => absurd mem (Option.not_mem_none s), List.isChain_nil⟩
  | succ n ih =>
    by_cases any : ∃ st₁, Passes n σ test st st₁
    · obtain ⟨st₁, passes⟩ := any
      have same := passes.leaves_body lt ready
      cases ends : block n inner body st₁ with
      | error e st₂ =>
        rw [bodies_of_stops passes ends]
        refine ⟨fun s mem => ?_, List.isChain_singleton st₁⟩
        cases mem
        exact same
      | ok _ st₂ =>
        obtain ⟨first, chain⟩ := ih (passes.ready ends ready)
        rw [bodies_of_ends passes ends]
        refine ⟨fun s mem => ?_, chain.cons fun s mem => ⟨st₂, ⟨n, ends⟩, first s mem⟩⟩
        cases mem
        exact same
    · rw [bodies_of_not_passes (not_exists.mp any)]
      exact ⟨fun s mem => absurd mem (Option.not_mem_none s), List.isChain_nil⟩

/-! ### What the body has bound -/

/-- Scope `inner` lies inside scope `σ`, and only names that statements of the body bind are bound
in it. -/
structure BodyScope (σ inner : Nat) (body : Block) (st : Store) : Prop where
  around : st.forest.around? inner = some (some σ)
  vars : ∀ x, st.forest.binds inner x = true → x ∈ body.stmts.flatMap Stmt.mayBind
  funcs : ∀ g, (st.forest.func? inner g).isSome = true → g ∈ body.funcNames

theorem bodyScope_of_empty (empty : st.forest.scopes[inner]? = some ⟨[], [], some σ⟩) :
    BodyScope σ inner body st where
  around := by rw [Forest.around?, empty, Option.map_some]
  vars := by
    intro x bound
    rw [Forest.binds, Forest.bound?, empty] at bound
    cases bound
  funcs := by
    intro g bound
    rw [Forest.func?, empty] at bound
    cases bound

theorem BodyScope.congr (h : BodyScope σ inner body st)
    (same : st'.forest.scopes[inner]? = st.forest.scopes[inner]?) :
    BodyScope σ inner body st' where
  around := by rw [Forest.around?, same]; exact h.around
  vars := by
    intro x bound
    rw [Forest.binds_congr same] at bound
    exact h.vars x bound
  funcs := by
    intro g bound
    rw [Forest.func?, same] at bound
    exact h.funcs g bound

theorem BodyScope.executed (h : BodyScope σ inner body st)
    (ends : (Task.block inner body).Completes st () st₁) : BodyScope σ inner body st₁ := by
  obtain ⟨n, ends⟩ := ends
  have ends : block n inner body st = .ok () st₁ := ends
  have confined := (tidy n).block inner body st (Nat.le_refl _)
  rw [ends] at confined
  have kept : Forest.Kept _ _ st.forest st₁.forest inner :=
    confined.here (Forest.lt_size_of_around h.around)
  refine ⟨kept.around.trans h.around, ?_, ?_⟩
  · intro x bound
    by_contra absent
    exact absent (h.vars x ((kept.names x absent).symm.trans bound))
  · intro g bound
    by_contra absent
    rw [kept.funcs g absent] at bound
    exact absent (h.funcs g bound)

theorem BodyScope.leftTo (left : LeftTo inner body st st') (h : BodyScope σ inner body st) :
    BodyScope σ inner body st' := by
  obtain ⟨st₁, ends, same⟩ := left
  exact (h.executed ends).congr same

/-! ### What the body sees -/

theorem join_or_eq_right {α : Type} {o : Option (Option α)} {a : Option α} :
    o.join.or a = a ↔ ∀ v, o = some (some v) → a = some v := by
  rcases o with _ | _ | v <;> simp [eq_comm]

/-- From the scope of the body all names are seen as from outside exactly if the variables that it
binds have there the values that they have inside, and it binds no function. -/
theorem BodyScope.sees_outside_iff (h : BodyScope σ inner body st) (lt : σ < inner)
    (homed : st.forest.Homed) :
    ((∀ x, st.forest.getVar inner x = st.forest.getVar σ x) ∧
        ∀ g, st.forest.getFunc inner g = st.forest.getFunc σ g) ↔
      (∀ x v, st.forest.bound? inner x = some (some v) → st.forest.getVar σ x = some v) ∧
        ∀ g c, st.forest.func? inner g ≠ some (some c) := by
  refine and_congr (forall_congr' fun x => ?_) (forall_congr' fun g => ?_)
  · rw [Forest.getVar_inside h.around lt]
    exact join_or_eq_right
  · rw [Forest.getFunc_inside h.around lt]
    refine join_or_eq_right.trans (forall_congr' fun c => ⟨fun outside bound => ?_, ?_⟩)
    · -- A function of the scope `inner` was declared there, and not around `σ`.
      obtain ⟨j, encloses, bound'⟩ := Forest.getFunc_eq_some (outside bound)
      have same : j = inner := (homed j g c bound').symm.trans (homed inner g c bound)
      have := encloses.le
      omega
    · intro absent bound
      exact absurd bound absent

/-! ### Whole loops -/

theorem bodies_loop :
    (Task.stmt σ (.loop test body line)).bodies (n + 1) st =
      (Task.rounds σ st.forest.scopes.size test body line).bodies n
        { st with forest := (st.forest.child σ).2 } := by
  have child : (Plan.act (childScope σ)).exec (Task.run n) st =
      .ok st.forest.scopes.size { st with forest := (st.forest.child σ).2 } := rfl
  rw [Task.bodies, Task.bodies, Task.parts_succ, Task.plan, Plan.stmt, Plan.parts_bind_of_ok child,
    Plan.parts_eval_round rfl]
  rfl

/-- A block starts in a lexical moment if its loop does. -/
theorem homed_of_mem_bodies {t : Task} (lexical : Moment.Lexical ⟨n, t, st⟩)
    (mem : st' ∈ t.bodies n st) : st'.forest.Homed := by
  obtain ⟨q, among, rfl⟩ := List.mem_map.mp mem
  obtain ⟨m, reaches⟩ := Task.reaches_of_mem_parts (List.mem_filter.mp among).1
  exact (reaches.lexical lexical).homed

/-- The scope of the body is empty at its first start, and then as the execution before has left
it. -/
theorem loop_chain (lexical : Moment.Lexical ⟨n, .stmt σ (.loop test body line), st⟩) :
    (∀ s ∈ ((Task.stmt σ (.loop test body line)).bodies n st).head?,
        s.forest.scopes[st.forest.scopes.size]? = some ⟨[], [], some σ⟩) ∧
      ((Task.stmt σ (.loop test body line)).bodies n st).IsChain
        (LeftTo st.forest.scopes.size body) := by
  cases n with
  | zero => exact ⟨fun s mem => absurd mem (Option.not_mem_none s), List.isChain_nil⟩
  | succ n =>
    have mem : σ ∈ [σ] := List.mem_singleton_self σ
    have ready : Ready (fun _ => True)
        { st with forest := (st.forest.child σ).2 : Store }.forest [σ, st.forest.scopes.size] :=
      (lexical.ready.child mem).mono (List.Perm.swap _ σ []).subset
    rw [bodies_loop]
    obtain ⟨first, chain⟩ := rounds_chain n test body line ready (lexical.placed σ mem)
    exact ⟨fun s mem => (first s mem).trans (Forest.scopes_child_size _ σ), chain⟩

/-- The scope `inner` of the body of a loop in scope `σ`, in any run that starts with functions
bound where they were declared. At the first start of the body it is empty, and at each later start
it is exactly as the execution before has left it. Only names that statements of the body bind are
bound in it. A name is seen from it as it is bound in it, or else as it is seen from `σ`. So all
names are seen as from `σ` exactly if no function is left in it, and no variable but with the value
that is seen from `σ`. -/
theorem loop_body_scope (origin : Moment) (lexical : origin.Lexical) (n σ inner : Nat) (test : Expr)
    (body : Block) (line : Line) (st : Store) (starts : List Store)
    (reaches : Reaches origin ⟨n, .stmt σ (.loop test body line), st⟩)
    (new : st.forest.scopes.size = inner)
    (rounds : (Task.stmt σ (.loop test body line)).bodies n st = starts) :
    (∀ s ∈ starts.head?, s.forest.scopes[inner]? = some ⟨[], [], some σ⟩) ∧
      starts.IsChain (LeftTo inner body) ∧
      ∀ s ∈ starts,
        (∀ x, s.forest.binds inner x = true → x ∈ body.stmts.flatMap Stmt.mayBind) ∧
        (∀ g, (s.forest.func? inner g).isSome = true → g ∈ body.funcNames) ∧
        (∀ x, s.forest.getVar inner x = (s.forest.bound? inner x).join.or (s.forest.getVar σ x)) ∧
        (∀ g, s.forest.getFunc inner g =
          (s.forest.func? inner g).join.or (s.forest.getFunc σ g)) ∧
        (((∀ x, s.forest.getVar inner x = s.forest.getVar σ x) ∧
            ∀ g, s.forest.getFunc inner g = s.forest.getFunc σ g) ↔
          (∀ x v, s.forest.bound? inner x = some (some v) → s.forest.getVar σ x = some v) ∧
            ∀ g c, s.forest.func? inner g ≠ some (some c)) := by
  subst new rounds
  have lexical := reaches.lexical lexical
  have lt : σ < st.forest.scopes.size := lexical.placed σ (List.mem_singleton_self σ)
  obtain ⟨first, chain⟩ := loop_chain lexical
  refine ⟨first, chain, fun s mem => ?_⟩
  have scope : BodyScope σ st.forest.scopes.size body s := by
    refine chain.induction _ _ (fun _ _ left h => h.leftTo left) (fun nonempty => ?_) s mem
    exact bodyScope_of_empty (first _ (List.head_mem_head? nonempty))
  exact ⟨scope.vars, scope.funcs, Forest.getVar_inside scope.around lt,
    Forest.getFunc_inside scope.around lt,
    scope.sees_outside_iff lt (homed_of_mem_bodies lexical mem)⟩

/-- The body `a := b b := false local x := false`. -/
def shadowing : Block :=
  .mk [.assign (.name "a" 1) (.name "b" 1) 1, .assign (.name "b" 1) (.bool false 1) 1,
    .assignLocal (.name "x" 1) (.bool false 1) 1] 1

/-- A loop with this body, after `x := true a := true b := true`. -/
def shadowingProgram : Block :=
  .mk [.assign (.name "x" 1) (.bool true 1) 1, .assign (.name "a" 1) (.bool true 1) 1,
    .assign (.name "b" 1) (.bool true 1) 1, .loop (.name "a" 1) shadowing 1] 1

/-- A store in which some variables are true. -/
def trueStore (names : List String) : Store :=
  ⟨⟨#[⟨names.map fun x => (x, some (.bool true)), [], none⟩]⟩, ""⟩

/-- A store of the loop: `x` is true, `a` and `b` are as given, and so is the scope of the body. -/
def shadowingStore (a b : Bool) (inner : Table (Option Value)) : Store :=
  ⟨⟨#[⟨[("x", some (.bool true)), ("a", some (.bool a)), ("b", some (.bool b))], [], none⟩,
    ⟨inner, [], some 0⟩]⟩, ""⟩

theorem starts_rest {s : Stmt} {ss : List Stmt} (done : stmt n σ s st = .ok () st₁) :
    Starts ⟨n + 1, .stmts σ (s :: ss), st⟩ ⟨n, .stmts σ ss, st₁⟩ :=
  .intro (Plan.mem_events_of_ok (p := .eval (.stmt σ s)) done List.mem_cons_self)

theorem shadowing_reached :
    Reaches ⟨15, .block 0 shadowingProgram, .empty⟩
      ⟨10, .stmt 0 (.loop (.name "a" 1) shadowing 1), trueStore ["x", "a", "b"]⟩ := by
  have first : stmt 13 0 (.assign (.name "x" 1) (.bool true 1) 1) .empty =
      .ok () (trueStore ["x"]) := by cbv
  have second : stmt 12 0 (.assign (.name "a" 1) (.bool true 1) 1) (trueStore ["x"]) =
      .ok () (trueStore ["x", "a"]) := by cbv
  have third : stmt 11 0 (.assign (.name "b" 1) (.bool true 1) 1) (trueStore ["x", "a"]) =
      .ok () (trueStore ["x", "a", "b"]) := by cbv
  exact .step (.intro List.mem_cons_self) <| .step (starts_rest first) <|
    .step (starts_rest second) <| .step (starts_rest third) <|
      .step (.intro (Plan.mem_events_bind.mpr (.inl List.mem_cons_self))) (.refl _)

theorem shadowing_tested (n : Nat) (a b : Bool) (inner : Table (Option Value)) :
    expr (n + 1) 0 (.name "a" 1) (shadowingStore a b inner) =
      .ok (some (.bool a)) (shadowingStore a b inner) := by
  cbv

/-- The body starts twice. -/
theorem shadowing_bodies :
    (Task.stmt 0 (.loop (.name "a" 1) shadowing 1)).bodies 10 (trueStore ["x", "a", "b"]) =
      [shadowingStore true true [], shadowingStore true false [("x", some (.bool false))]] := by
  have first : block 8 1 shadowing (shadowingStore true true []) =
      .ok () (shadowingStore true false [("x", some (.bool false))]) := by cbv
  have second : block 7 1 shadowing (shadowingStore true false [("x", some (.bool false))]) =
      .ok () (shadowingStore false false [("x", some (.bool false))]) := by cbv
  have last : ∀ st₁, ¬Passes 6 0 (.name "a" 1)
      (shadowingStore false false [("x", some (.bool false))]) st₁ := by
    rintro st₁ ⟨v, tested, -, truthy⟩
    cases (shadowing_tested 5 false false _).symm.trans tested
    cases truthy
  rw [bodies_loop]
  refine (bodies_of_ends ⟨_, shadowing_tested 7 true true [], rfl, rfl⟩ first).trans ?_
  rw [bodies_of_ends ⟨_, shadowing_tested 6 true false _, rfl, rfl⟩ second,
    bodies_of_not_passes last]

/-- At its second start the body sees the variable `x` that it has bound itself. -/
theorem shadowing_left_to_second_round :
    LeftTo 1 shadowing (shadowingStore true true [])
        (shadowingStore true false [("x", some (.bool false))]) ∧
      ∀ x, (shadowingStore true false [("x", some (.bool false))]).forest.getVar 1 x =
        ((shadowingStore true false [("x", some (.bool false))]).forest.bound? 1 x).join.or
          ((shadowingStore true false [("x", some (.bool false))]).forest.getVar 0 x) := by
  obtain ⟨-, chain, seen⟩ := loop_body_scope _ (lexical_empty 15 shadowingProgram) 10 0 1
    (.name "a" 1) shadowing 1 _ _ shadowing_reached rfl shadowing_bodies
  obtain ⟨-, -, vars, -, -⟩ := seen _ (List.mem_cons_of_mem _ (List.mem_singleton_self _))
  exact ⟨(List.isChain_cons_cons.mp chain).1, vars⟩

/-- In the second round `x` is not what it is outside of the loop. -/
theorem shadowing_not_fresh :
    Workload.parsed
        "x := true a := true b := true while a do a := b b := false local x := false end" =
        .ok shadowingProgram ∧
      Reaches ⟨15, .block 0 shadowingProgram, .empty⟩
        ⟨10, .stmt 0 (.loop (.name "a" 1) shadowing 1), trueStore ["x", "a", "b"]⟩ ∧
      ∃ first second, (Task.stmt 0 (.loop (.name "a" 1) shadowing 1)).bodies 10
          (trueStore ["x", "a", "b"]) = [first, second] ∧
        second.forest.getVar 1 "x" = some (.bool false) ∧
        second.forest.getVar 0 "x" = some (.bool true) :=
  ⟨by cbv, shadowing_reached, _, _, shadowing_bodies, by cbv, by cbv⟩

end ScriptLang.Eval
