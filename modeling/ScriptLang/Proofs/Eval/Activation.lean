import Mathlib
import ScriptLang.Proofs.Eval.Course
import ScriptLang.Proofs.Eval.Returns

/-!
What a `ret` ends.

No return leaves an expression, nor a statement in which every `ret` stands inside a declared
function. A call runs the body of its function as one activation. The course of an activation shows
the statements that it executes, at any depth of blocks and loops, and nothing of the functions that
it calls. If the activation returns, then its course ends with its first `ret` and the evaluation of
the value there, and this value is what the call yields (`return_ends_activation`).
-/

namespace ScriptLang

mutual
/-- No `ret` stands in a statement, other than in functions that are declared in it. -/
def Stmt.returnless : Stmt → Bool
  | .branch _ thenBlock elseBlock _ => thenBlock.returnless && Block.returnlessElse elseBlock
  | .loop _ body _ | .count _ _ _ _ _ body _ => body.returnless
  | .ret _ _ => false
  | .print _ _ _ | .assign _ _ _ | .assignLocal _ _ _ | .func _ _ _ _ | .call _ _ _ => true

def Block.returnless : Block → Bool
  | .mk ss _ => Stmt.returnlessAll ss

def Block.returnlessElse : Option Block → Bool
  | none => true
  | some b => b.returnless

def Stmt.returnlessAll : List Stmt → Bool
  | [] => true
  | s :: ss => s.returnless && Stmt.returnlessAll ss
end

theorem Block.returnless_eq (b : Block) : b.returnless = Stmt.returnlessAll b.stmts := by
  cases b
  rfl

namespace Eval

variable {α β : Type} {n σ : Nat} {st st' : Store} {P : Task → Prop}

namespace Task

/-- A task of the running activation: statements, and the rounds of its loops. -/
def isStatement : Task → Bool
  | .stmt _ _ | .block _ _ | .stmts _ _ | .rounds _ _ _ _ _ | .counted _ _ _ _ _ _ _ _ => true
  | .expr _ _ | .exprs _ _ | .call _ _ _ _ => false

/-- The task to execute a `ret`. -/
def isReturn : Task → Bool
  | .stmt _ s => s.isRet
  | _ => false

/-- A task whose statements have no `ret`, other than in functions that are declared in them. -/
def returnless : Task → Bool
  | .stmt _ s => s.returnless
  | .block _ b => b.returnless
  | .stmts _ ss => Stmt.returnlessAll ss
  | .rounds _ _ _ body _ | .counted _ _ _ _ _ _ body _ => body.returnless
  | .expr _ _ | .exprs _ _ | .call _ _ _ _ => true

/-- The value of an expression or of a call is all that its evaluation returns. -/
theorem plain_run {t : Task} (h : t.isStatement = false) (n : Nat) : Plain (t.run n) := by
  cases t with
  | expr σ e => exact (plainExprs n).expr σ e
  | exprs σ es => exact (plainExprs n).exprs σ es
  | call σ f args line => exact (plainExprs n).call σ f args line
  | stmt | block | stmts | rounds | counted => cases h

end Task

theorem Plain.ne_ret {x : Eval α} (plain : Plain x) {v : Option Value} :
    x st ≠ .error (.ret v) st' := by
  intro returned
  rcases plain st with ⟨a, st₁, done⟩ | stuck
  · cases returned.symm.trans done
  · rw [returned] at stuck
    exact stuck

theorem plain_modify (f : Store → Store) : Plain (modify f : Eval Unit) :=
  fun st => .inl ⟨(), f st, rfl⟩

theorem plain_lift (r : Except Fault α) : Plain (lift r) := by
  cases r with
  | ok a => exact plain_pure a
  | error f => exact plain_fault f

theorem plain_print (d ending : Datum) : Plain (print d ending) := by
  refine (plain_lift _).bind fun text => ?_
  split
  · exact plain_modify _
  · exact plain_modify _
  · exact plain_fault _

theorem plain_target {store : String → Eval Unit} (target : Expr) (plain : ∀ x, Plain (store x)) :
    Plain (do store (← targetName target)) := by
  refine Plain.bind ?_ plain
  unfold targetName
  split
  · exact plain_pure _
  · exact plain_fault _

/-! ### Plans that return nothing by themselves -/

namespace Plan

/-- A plan of steps that return nothing, and of tasks in `P`. -/
def Made (P : Task → Prop) {α : Type} : Plan α → Prop
  | .act x => Plain x
  | .eval t => P t
  | .bind p k => p.Made P ∧ ∀ a, (k a).Made P
  | .returning _ => False

theorem Made.plain {p : Plan α} (made : p.Made P) (tasks : ∀ t, P t → Plain (t.run n)) :
    Plain (p.exec (Task.run n)) := by
  induction p with
  | act x => exact made
  | eval t => exact tasks t made
  | bind p k first rest => exact (first made.1).bind fun a => rest a (made.2 a)
  | returning p => exact made.elim

theorem made_value {e : Expr} (task : P (.expr σ e)) : (value σ e).Made P :=
  ⟨task, plain_demand⟩

theorem made_branch {test : Expr} {thenBlock : Block} {elseBlock : Option Block} {line : Line}
    (first : P (.expr σ test)) (blocks : ∀ inner b, b = thenBlock ∨ b ∈ elseBlock →
      P (.block inner b)) : (Plan.stmt σ (.branch test thenBlock elseBlock line)).Made P := by
  refine ⟨made_value first, fun v => ?_⟩
  dsimp only
  split
  · refine ⟨plain_childScope σ, fun inner => ?_⟩
    dsimp only
    split
    · exact blocks inner thenBlock (.inl rfl)
    · cases elseBlock with
      | none => exact plain_pure ()
      | some b => exact blocks inner b (.inr rfl)
  · exact plain_report _ _

theorem made_count {var : String} {varLine line : Line} {start stop : Expr} {step : Option Expr}
    {body : Block} (exprs : ∀ e, P (.expr σ e))
    (rounds : ∀ inner c last delta i, P (.counted σ inner var c last delta body i)) :
    (Plan.stmt σ (.count var varLine start stop step body line)).Made P := by
  refine ⟨made_value (exprs start), fun i => ⟨made_value (exprs stop), fun last =>
    ⟨plain_childScope σ, fun inner => ⟨plain_lift _, fun upward => ⟨?_, fun delta =>
      rounds inner _ _ delta _⟩⟩⟩⟩⟩
  cases step with
  | none => exact plain_pure _
  | some e => exact ⟨made_value (exprs e), fun v => plain_pure _⟩

/-- Of a statement that is no `ret`, only the tasks in it can return, and if there is a `ret` in one
of them, then there is one in the statement. -/
theorem made_stmt {s : Stmt} (other : s.isRet = false) :
    (Plan.stmt σ s).Made fun t => s.returnless = true → t.returnless = true := by
  cases s with
  | print v ending line => exact ⟨made_value fun _ => rfl, fun v => plain_print _ _⟩
  | assign target v line =>
    exact ⟨made_value fun _ => rfl, fun v => plain_target target fun x => plain_modify _⟩
  | assignLocal target v line =>
    exact ⟨made_value fun _ => rfl, fun v => plain_target target fun x => plain_modify _⟩
  | branch test thenBlock elseBlock line =>
    refine made_branch (fun _ => rfl) fun inner b mem returnless => ?_
    rw [Stmt.returnless, Bool.and_eq_true] at returnless
    rcases mem with rfl | mem
    · exact returnless.1
    · cases mem
      exact returnless.2
  | loop test body line => exact ⟨plain_childScope σ, fun inner returnless => returnless⟩
  | count var varLine start stop step body line =>
    exact made_count (fun _ _ => rfl) fun _ _ _ _ _ returnless => returnless
  | func name params body line => exact plain_modify _
  | call f args line => exact ⟨fun _ => rfl, fun _ => plain_pure ()⟩
  | ret => cases other

theorem made_stmts (σ : Nat) (ss : List Stmt) :
    (Plan.stmts σ ss).Made fun t => Stmt.returnlessAll ss = true → t.returnless = true := by
  cases ss with
  | nil => exact plain_pure ()
  | cons s ss =>
    constructor
    · intro returnless
      rw [Stmt.returnlessAll, Bool.and_eq_true] at returnless
      exact returnless.1
    · intro _ returnless
      rw [Stmt.returnlessAll, Bool.and_eq_true] at returnless
      exact returnless.2

theorem made_rounds (σ inner : Nat) (test : Expr) (body : Block) (line : Line) :
    (Plan.rounds σ inner test body line).Made fun t =>
      body.returnless = true → t.returnless = true := by
  refine ⟨made_value fun _ => rfl, fun v => ?_⟩
  dsimp only
  split
  · split
    · exact ⟨fun returnless => returnless, fun _ returnless => returnless⟩
    · exact plain_pure ()
  · exact plain_report _ _

theorem made_counted (σ inner : Nat) (var : String) (c : Comparison) (last step : Datum)
    (body : Block) (i : Datum) :
    (Plan.counted σ inner var c last step body i).Made fun t =>
      body.returnless = true → t.returnless = true := by
  refine ⟨plain_lift _, fun more => ?_⟩
  dsimp only
  split
  · exact ⟨plain_modify _, fun _ => ⟨fun returnless => returnless, fun _ =>
      ⟨plain_lift _, fun next returnless => returnless⟩⟩⟩
  · exact plain_pure ()

end Plan

theorem Task.made {t : Task} (statement : t.isStatement = true) (other : t.isReturn = false) :
    t.plan.Made fun t' => t.returnless = true → t'.returnless = true := by
  cases t with
  | stmt σ s => exact Plan.made_stmt other
  | block σ b =>
    intro returnless
    exact b.returnless_eq.symm.trans returnless
  | stmts σ ss => exact Plan.made_stmts σ ss
  | rounds σ inner test body line => exact Plan.made_rounds σ inner test body line
  | counted σ inner var c last step body i =>
    exact Plan.made_counted σ inner var c last step body i
  | expr | exprs | call => cases statement

theorem Task.isReturn_of_returnless {t : Task} (returnless : t.returnless = true) :
    t.isReturn = false := by
  cases t with
  | stmt σ s =>
    cases s with
    | ret => cases returnless
    | _ => rfl
  | _ => rfl

/-- A task without a `ret` in its statements returns nothing. -/
theorem Task.plain_of_returnless {t : Task} (returnless : t.returnless = true) (n : Nat) :
    Plain (t.run n) := by
  induction n generalizing t with
  | zero =>
    intro st
    rw [Task.run_zero]
    exact .inr trivial
  | succ n ih =>
    cases statement : t.isStatement with
    | false => exact Task.plain_run statement (n + 1)
    | true =>
      rw [Task.run_succ]
      exact (Task.made statement (isReturn_of_returnless returnless)).plain fun t' inside =>
        ih (inside returnless)

/-! ### The course of an activation -/

/-- What the course of an activation tells about its end. Without a return no `ret` is in it. With
one, the only `ret` is the last statement, nothing but its own value is evaluated after it, and the
activation ends with that value in the store that its evaluation leaves. -/
structure Told (r : EStateM.Result Stop Store α) (course : List (Task × Store)) : Prop where
  ended : ∀ a st', r = .ok a st' → ∀ t ∈ course, t.1.isReturn = false
  returned : ∀ v st', r = .error (.ret v) st' → ∃ before τ e line st₁,
    course = before ++ [(.stmt τ (.ret e line), st₁), (.expr τ e, st₁)] ∧
      (∀ t ∈ before, t.1.isReturn = false) ∧ (Task.expr τ e).Completes st₁ v st'

theorem Told.of_plain {x : Eval α} {course : List (Task × Store)} (plain : Plain x)
    (none : ∀ t ∈ course, t.1.isReturn = false) : Told (x st) course where
  ended := fun _ _ _ => none
  returned := fun _ _ returned => absurd returned plain.ne_ret

/-- What comes before without a `ret` does not matter. -/
theorem Told.append {r : EStateM.Result Stop Store α} {course before : List (Task × Store)}
    (h : Told r course) (none : ∀ t ∈ before, t.1.isReturn = false) :
    Told r (before ++ course) where
  ended := by
    intro a st' done t mem
    rcases List.mem_append.mp mem with mem | mem
    · exact none t mem
    · exact h.ended a st' done t mem
  returned := by
    intro v st' returned
    obtain ⟨more, τ, e, line, st₁, eq, free, value⟩ := h.returned v st' returned
    refine ⟨before ++ more, τ, e, line, st₁, ?_, ?_, value⟩
    · rw [eq, List.append_assoc]
    · intro t mem
      rcases List.mem_append.mp mem with mem | mem
      · exact none t mem
      · exact free t mem

theorem Task.told_zero (t : Task) (course : List (Task × Store)) : Told (t.run 0 st) course := by
  rw [Task.run_zero]
  constructor <;> rintro _ _ ⟨⟩

/-- A `ret` evaluates its value and returns it. -/
theorem told_ret (σ : Nat) (e : Expr) (line : Line) :
    Told ((Task.stmt σ (.ret e line)).run n st)
      ((.stmt σ (.ret e line), st) ::
        (Task.stmt σ (.ret e line)).course Task.isStatement n st) := by
  cases n with
  | zero => exact Task.told_zero _ _
  | succ n =>
    rw [Task.run_succ, Task.course_succ]
    rcases (plainExprs n).expr σ e st with ⟨v, st₁, done⟩ | stuck
    · have value : (Plan.eval (.expr σ e)).exec (Task.run n) st = .ok v st₁ := done
      have throws : (Task.stmt σ (.ret e line)).plan.exec (Task.run n) st =
          .error (.ret v) st₁ := bind_of_ok value
      have course : (Task.stmt σ (.ret e line)).plan.course Task.isStatement n st =
          [(.expr σ e, st)] := Plan.course_bind_of_ok value
      rw [throws, course]
      constructor
      · rintro _ _ ⟨⟩
      · rintro _ _ ⟨⟩
        exact ⟨[], σ, e, line, st, rfl, List.forall_mem_nil _, n, done⟩
    · have stops : Stuck ((Task.stmt σ (.ret e line)).plan.exec (Task.run n) st) :=
        bind_stuck stuck
      constructor
      · intro a st' done
        rw [done] at stops
        exact stops.elim
      · intro v st' returned
        rw [returned] at stops
        exact stops.elim

/-- The course of a plan tells its end if the courses of its tasks do. -/
theorem Plan.Made.told {p : Plan α} (made : p.Made P)
    (tasks : ∀ t st, Told (t.run n st)
      ((t, st) :: if t.isStatement then t.course Task.isStatement n st else []))
    (st : Store) : Told (p.exec (Task.run n) st) (p.course Task.isStatement n st) := by
  induction p generalizing st with
  | act x => exact .of_plain made (List.forall_mem_nil _)
  | eval t =>
    rw [course_eval]
    exact tasks t st
  | bind p k first rest =>
    have before := first made.1 st
    cases done : p.exec (Task.run n) st with
    | ok a st₁ =>
      rw [course_bind_of_ok done, exec, bind_of_ok done]
      exact (rest a (made.2 a) st₁).append (before.ended a st₁ done)
    | error e st₁ =>
      rw [course_bind_of_error done, exec, bind_of_error done]
      rw [done] at before
      refine ⟨?_, fun v st' returned => before.returned v st' ?_⟩
      · rintro _ _ ⟨⟩
      · cases returned
        rfl
  | returning p => exact made.elim

/-- The course of a statement that is no `ret` tells its end if those of the tasks in it do. -/
theorem Task.told_succ {t : Task} (statement : t.isStatement = true) (other : t.isReturn = false)
    (tasks : ∀ t st, Told (t.run n st)
      ((t, st) :: if t.isStatement then t.course Task.isStatement n st else []))
    (st : Store) : Told (t.run (n + 1) st) (t.course Task.isStatement (n + 1) st) := by
  rw [Task.run_succ, Task.course_succ]
  exact (Task.made statement other).told tasks st

theorem Task.told (n : Nat) (t : Task) (st : Store) : Told (t.run n st)
    ((t, st) :: if t.isStatement then t.course Task.isStatement n st else []) := by
  induction n generalizing t st with
  | zero => exact t.told_zero _
  | succ n ih =>
    have alone (other : t.isReturn = false) : ∀ p ∈ [(t, st)], p.1.isReturn = false := by
      intro p mem
      rw [List.mem_singleton.mp mem]
      exact other
    cases t with
    | expr σ e => exact .of_plain ((plainExprs _).expr σ e) (alone rfl)
    | exprs σ es => exact .of_plain ((plainExprs _).exprs σ es) (alone rfl)
    | call σ f args line => exact .of_plain ((plainExprs _).call σ f args line) (alone rfl)
    | block | stmts | rounds | counted => exact (Task.told_succ rfl rfl ih st).append (alone rfl)
    | stmt σ s =>
      cases s with
      | ret e line => exact told_ret σ e line
      | _ => exact (Task.told_succ rfl rfl ih st).append (alone rfl)

/-- The course of an activation tells how its body ended. -/
theorem told_block (n inner : Nat) (body : Block) (st : Store) : Told (block n inner body st)
    ((Task.block inner body).course Task.isStatement n st) := by
  cases n with
  | zero => exact (Task.block inner body).told_zero _
  | succ n => exact Task.told_succ (t := .block inner body) rfl rfl (Task.told n) st

/-! ### Calls -/

theorem no_start_params {t : Task} (run : (t : Task) → Eval t.Result) (σ : Nat) (ps : List Param)
    (vs : List (Option Value)) : Event.start t st' ∉ (Plan.params σ ps vs).events run st := by
  induction ps generalizing vs st with
  | nil => simp [Plan.params, Plan.events]
  | cons p ps ih =>
    cases vs with
    | nil => simp [Plan.params, Plan.events]
    | cons v vs =>
      intro mem
      rcases Plan.mem_events_bind.mp mem with mem | ⟨_, _, _, mem⟩
      · cases List.mem_singleton.mp mem
      · exact ih vs mem

/-- The block that a call starts is the body of the function that the call finds, and the call takes
what this block returns. -/
theorem call_of_starts {f : String} {args : List Expr} {line : Line} {inner : Nat} {body : Block}
    (starts : Starts ⟨n + 1, .call σ f args line, st⟩ ⟨n, .block inner body, st'⟩) :
    (∃ g, st.forest.getFunc σ f = some g ∧ g.body = body) ∧
      call (n + 1) σ f args line st = returning (block n inner body) st' := by
  cases starts with
  | intro mem =>
    rw [← exec_call]
    rcases Plan.mem_events_bind.mp mem with mem | ⟨_, _, ⟨⟩, mem⟩
    · cases List.mem_singleton.mp mem
    rw [Plan.call, Plan.exec_bind_of_ok (p := .act get) rfl]
    cases found : st.forest.getFunc σ f with
    | none =>
      rw [found] at mem
      cases List.mem_singleton.mp mem
    | some g =>
      simp only [found] at mem ⊢
      split at mem
      · cases List.mem_singleton.mp mem
      · rename_i fits
        rw [if_neg fits]
        rcases Plan.mem_events_bind.mp mem with mem | ⟨vs, st₁, values, mem⟩
        · simp [Plan.events] at mem
        rcases Plan.mem_events_bind.mp mem with mem | ⟨inner', st₂, made, mem⟩
        · cases List.mem_singleton.mp mem
        rcases Plan.mem_events_bind.mp mem with mem | ⟨_, st₃, bound, mem⟩
        · exact absurd mem (no_start_params _ _ _ _)
        rw [Plan.exec_bind_of_ok values, Plan.exec_bind_of_ok made,
          Plan.exec_bind_of_ok bound]
        rcases List.mem_cons.mp mem with same | mem
        · cases same
          exact ⟨⟨g, rfl, rfl⟩, rfl⟩
        · cases List.mem_singleton.mp mem

/-- No return leaves an expression, and none leaves a statement or a block without a `ret` outside
of declared functions. A call whose body runs to its end yields the number zero. A call whose body
ends by a return yields the value that the first `ret` of this activation has evaluated, and nothing
else of the activation is executed after it. -/
theorem return_ends_activation :
    (∀ fuel σ e st v st', expr fuel σ e st ≠ .error (.ret v) st') ∧
      (∀ fuel σ s st v st', s.returnless = true → stmt fuel σ s st ≠ .error (.ret v) st') ∧
      (∀ fuel σ b st v st', b.returnless = true → block fuel σ b st ≠ .error (.ret v) st') ∧
      ∀ fuel σ f args line st inner body st₀,
        Starts ⟨fuel + 1, .call σ f args line, st⟩ ⟨fuel, .block inner body, st₀⟩ →
          (∃ g, st.forest.getFunc σ f = some g ∧ g.body = body) ∧
          Told (block fuel inner body st₀)
            ((Task.block inner body).course Task.isStatement fuel st₀) ∧
          (∀ st₁, block fuel inner body st₀ = .ok () st₁ →
            call (fuel + 1) σ f args line st = .ok (some ⟨.number, .int 0⟩) st₁) ∧
          ∀ v st₁, block fuel inner body st₀ = .error (.ret v) st₁ →
            call (fuel + 1) σ f args line st = .ok v st₁ := by
  refine ⟨fun fuel σ e st v st' => ((plainExprs fuel).expr σ e).ne_ret, ?_, ?_, ?_⟩
  · intro fuel σ s st v st' returnless
    exact (Task.plain_of_returnless (t := .stmt σ s) returnless fuel).ne_ret
  · intro fuel σ b st v st' returnless
    exact (Task.plain_of_returnless (t := .block σ b) returnless fuel).ne_ret
  · intro fuel σ f args line st inner body st₀ starts
    obtain ⟨found, taken⟩ := call_of_starts starts
    refine ⟨found, told_block fuel inner body st₀, ?_, ?_⟩
    · intro st₁ ended
      rw [taken, returning, ended]
      rfl
    · intro v st₁ returned
      rw [taken, returning, returned]

/-- The function `g(b)`, which returns `b`. -/
def echoFunc : Closure := ⟨"g", [⟨"b", 1⟩], .mk [.ret (.name "b" 1) 1] 1, 0⟩

/-- Two blocks deep inside an endless loop the value `g(false)` is returned. -/
def searchBody : Block :=
  .mk [.loop (.bool true 2)
      (.mk [.branch (.name "a" 3) (.mk [.ret (.call "g" [.bool false 3] 3) 3] 3) none 3,
        .print (.name "a" 4) (.str "\n") 4] 3) 2,
    .ret (.bool true 5) 5] 2

/-- The outermost scope with the function `g` and a function `f(a)` that searches. -/
def searchRoot : Scope Value Closure :=
  ⟨[], [("g", some echoFunc), ("f", some ⟨"f", [⟨"a", 2⟩], searchBody, 0⟩)], none⟩

/-- The store in which the body of `f(true)` starts. -/
def searchStart : Store := ⟨⟨#[searchRoot, ⟨[("a", some (.bool true))], [], some 0⟩]⟩, ""⟩

/-- The store in which it ends: the loop, the branch and the call of `g` have made scopes. -/
def searchEnd : Store :=
  ⟨⟨searchStart.forest.scopes ++ #[⟨[], [], some 1⟩, ⟨[], [], some 2⟩,
    ⟨[("b", some (.bool false))], [], some 0⟩]⟩, ""⟩

/-- A return out of a loop and a branch, with a value that another call returns. -/
theorem search_returns :
    Starts ⟨20, .call 0 "f" [.bool true 6] 6, ⟨⟨#[searchRoot]⟩, ""⟩⟩
        ⟨19, .block 1 searchBody, searchStart⟩ ∧
      searchBody.returnless = false ∧
      block 19 1 searchBody searchStart = .error (.ret (some (.bool false))) searchEnd ∧
      call 20 0 "f" [.bool true 6] 6 ⟨⟨#[searchRoot]⟩, ""⟩ =
        .ok (some (.bool false)) searchEnd := by
  have found : (Forest.mk #[searchRoot]).getFunc 0 "f" =
      some ⟨"f", [⟨"a", 2⟩], searchBody, 0⟩ := by cbv
  have args : Task.run 19 (.exprs 0 [.bool true 6]) ⟨⟨#[searchRoot]⟩, ""⟩ =
      .ok [some (.bool true)] ⟨⟨#[searchRoot]⟩, ""⟩ := by cbv
  have starts : Starts ⟨20, .call 0 "f" [.bool true 6] 6, ⟨⟨#[searchRoot]⟩, ""⟩⟩
      ⟨19, .block 1 searchBody, searchStart⟩ := by
    refine .intro (Plan.mem_events_of_ok (p := .act get) rfl ?_)
    simp only [found]
    refine Plan.mem_events_of_ok args (Plan.mem_events_of_ok (p := .act _) rfl ?_)
    exact Plan.mem_events_of_ok (p := .params _ _ _) rfl List.mem_cons_self
  have returned : block 19 1 searchBody searchStart =
      .error (.ret (some (.bool false))) searchEnd := by cbv
  obtain ⟨-, -, -, taken⟩ := return_ends_activation.2.2.2 _ _ _ _ _ _ _ _ _ starts
  exact ⟨starts, rfl, returned, taken _ _ returned⟩

end Eval

end ScriptLang
