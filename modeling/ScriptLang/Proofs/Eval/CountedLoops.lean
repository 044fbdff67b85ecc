import Mathlib
import ScriptLang.Proofs.Eval.Course
import ScriptLang.Proofs.Scope.Lookup

/-!
Loops that count in whole numbers.

The counter of a loop is not kept in a scope: it goes from round to round on its own, and before
each round the variable gets its value, whatever the body did to it. So the rounds are settled by
the start, the end and the step alone (`counted_first`).
-/

namespace ScriptLang

namespace Comparison

theorem lt_holds {a b : Int} : lt.holds (compare a b) = true ↔ a < b := by
  rw [holds, beq_iff_eq, compare_lt_iff_lt]

theorem le_holds {a b : Int} : le.holds (compare a b) = true ↔ a ≤ b := by
  rw [holds, bne_iff_ne, ne_eq, compare_gt_iff_gt, not_lt]

theorem ge_holds {a b : Int} : ge.holds (compare a b) = true ↔ b ≤ a := by
  rw [holds, bne_iff_ne, ne_eq, compare_lt_iff_lt, not_lt]

end Comparison

namespace Datum

theorem ordered_int (c : Comparison) (a b : Int) :
    (Datum.int a).ordered c (.int b) = .ok (c.holds (compare a b)) := by
  simp [ordered, num?, Num.order?]

end Datum

/-- The store in which a round of a loop starts its body: the variable has the value of the
counter. -/
def Store.counting (st : Store) (σ : Nat) (var : String) (i : Int) : Store :=
  { st with forest := st.forest.setVar σ var (some (.number (.int i))) }

/-- The store with a new scope inside scope `σ`. -/
def Store.child (st : Store) (σ : Nat) : Store :=
  { st with forest := (st.forest.child σ).2 }

theorem Store.size_child (st : Store) (σ : Nat) :
    (st.child σ).forest.scopes.size = st.forest.scopes.size + 1 := by
  simp [Store.child, Forest.child]

namespace Eval

variable {n m N σ inner : Nat} {var : String} {c : Comparison} {b d i : Int} {body : Block}
  {st st' : Store}

/-- The rounds that are left of a loop in whole numbers when the counter is `i`. -/
abbrev roundsFrom (σ inner : Nat) (var : String) (c : Comparison) (b d : Int) (body : Block)
    (i : Int) : Task :=
  .counted σ inner var c (.int b) (.int d) body (.int i)

/-! ### Round by round -/

/-- A counter beyond the end leaves no round. -/
theorem rounds_past (n σ inner : Nat) (var : String) (d : Int) (body : Block) (st : Store)
    (past : c.holds (compare i b) = false) :
    (roundsFrom σ inner var c b d body i).run (n + 1) st = .ok () st ∧
      (roundsFrom σ inner var c b d body i).parts (n + 1) st = [] := by
  have test : (Plan.act (lift ((Datum.int i).ordered c (.int b)))).exec (Task.run n) st =
      .ok false st := by
    rw [Datum.ordered_int, past]
    rfl
  rw [Task.run_succ, Task.parts_succ, Task.plan, Plan.counted, Plan.exec_bind_of_ok test,
    Plan.parts_bind_of_ok test]
  exact ⟨rfl, rfl⟩

/-- A round: the variable gets the value of the counter, the body is executed, and the counter goes
on by the step. -/
def round (σ inner : Nat) (var : String) (c : Comparison) (b d : Int) (body : Block) (i : Int) :
    Plan Unit :=
  (Plan.eval (.block inner body)).bind fun _ =>
    (Plan.act (lift ((Datum.int i).add (.int d)))).bind fun next =>
      .eval (.counted σ inner var c (.int b) (.int d) body next)

/-- A counter that is not beyond the end makes a round. -/
theorem rounds_open (more : c.holds (compare i b) = true) :
    (roundsFrom σ inner var c b d body i).run (n + 1) st =
        (round σ inner var c b d body i).exec (Task.run n) (st.counting σ var i) ∧
      (roundsFrom σ inner var c b d body i).parts (n + 1) st =
        (round σ inner var c b d body i).parts n (st.counting σ var i) := by
  have test : (Plan.act (lift ((Datum.int i).ordered c (.int b)))).exec (Task.run n) st =
      .ok true st := by
    rw [Datum.ordered_int, more]
    rfl
  have set : (Plan.act (setVar σ var (some (.number (.int i))))).exec (Task.run n) st =
      .ok () (st.counting σ var i) := rfl
  rw [Task.run_succ, Task.parts_succ, Task.plan, Plan.counted, Plan.exec_bind_of_ok test,
    Plan.parts_bind_of_ok test, if_pos rfl, Plan.exec_bind_of_ok set, Plan.parts_bind_of_ok set]
  exact ⟨rfl, rfl⟩

theorem rounds_start (more : c.holds (compare i b) = true) :
    (Task.block inner body, st.counting σ var i) ∈
      (roundsFrom σ inner var c b d body i).parts (n + 1) st := by
  rw [(rounds_open more).2]
  refine Plan.parts_bind_prefix.subset ?_
  rw [Plan.parts_eval rfl]
  exact List.mem_singleton_self _

/-- If its body ends, then what is left are the rounds from the next counter on. -/
theorem rounds_next (more : c.holds (compare i b) = true)
    (ends : (Task.block inner body).run n (st.counting σ var i) = .ok () st') :
    (roundsFrom σ inner var c b d body i).run (n + 1) st =
        (roundsFrom σ inner var c b d body (i + d)).run n st' ∧
      (roundsFrom σ inner var c b d body i).parts (n + 1) st =
        (.block inner body, st.counting σ var i) ::
          (roundsFrom σ inner var c b d body (i + d)).parts n st' := by
  have executed : (Plan.eval (.block inner body)).exec (Task.run n) (st.counting σ var i) =
      .ok () st' := ends
  have next : (Plan.act (lift ((Datum.int i).add (.int d)))).exec (Task.run n) st' =
      .ok (.int (i + d)) st' := rfl
  rw [(rounds_open more).1, (rounds_open more).2, round, Plan.exec_bind_of_ok executed,
    Plan.parts_bind_of_ok executed, Plan.exec_bind_of_ok next, Plan.parts_bind_of_ok next,
    Plan.parts_eval rfl, Plan.parts_eval_round rfl]
  exact ⟨rfl, rfl⟩

/-- No scope is gone after a round. -/
theorem size_le_of_round
    (ends : (Task.block inner body).run n (st.counting σ var i) = .ok () st') :
    st.forest.scopes.size ≤ st'.forest.scopes.size := by
  have confined := (tidy n).block inner body (st.counting σ var i) (Nat.zero_le _)
  have ends : block n inner body (st.counting σ var i) = .ok () st' := ends
  rw [ends] at confined
  exact (Forest.size_setLocal _ _ _ _).symm.trans_le confined.size

/-- The values of a variable of scope `σ` in some stores are whole numbers that start with `i` and
grow by `d`. -/
def Visits (σ : Nat) (var : String) (i d : Int) (N : Nat) (stores : List Store) : Prop :=
  stores.map (fun st => st.forest.getVar σ var) =
    (List.range N).map fun k : Nat => some (.number (.int (i + k * d)))

theorem Visits.cons {stores : List Store} (placed : σ < st.forest.scopes.size)
    (rest : Visits σ var (i + d) d N stores) :
    Visits σ var i d (N + 1) (st.counting σ var i :: stores) := by
  rw [Visits, List.map_cons, List.range_succ_eq_map, List.map_cons, List.map_map, rest]
  congr 1
  · rw [Store.counting, Forest.getVar_setVar placed]
    simp
  · refine List.map_congr_left fun k _ => ?_
    simp only [Function.comp_apply]
    push_cast
    ring_nf

/-- With enough fuel the first `N` rounds of a loop are made, if their counters are not beyond the
end and all bodies that are started end normally. -/
theorem counted_first (placed : σ < st.forest.scopes.size)
    (more : ∀ k : Nat, k < N → c.holds (compare (i + k * d) b) = true)
    (ends : (roundsFrom σ inner var c b d body i).BlocksEnd st) :
    ∃ n st' stores, Visits σ var i d N stores ∧ ∀ m, n ≤ m →
      (roundsFrom σ inner var c b d body i).run (m + N) st =
          (roundsFrom σ inner var c b d body (i + N * d)).run m st' ∧
        (roundsFrom σ inner var c b d body i).parts (m + N) st =
          stores.map (fun st => (Task.block inner body, st)) ++
            (roundsFrom σ inner var c b d body (i + N * d)).parts m st' := by
  induction N generalizing i st with
  | zero =>
    refine ⟨0, st, [], rfl, fun m _ => ?_⟩
    rw [show i + (0 : Nat) * d = i by simp]
    exact ⟨rfl, rfl⟩
  | succ N ih =>
    have now : c.holds (compare i b) = true := by simpa using more 0 (Nat.succ_pos N)
    obtain ⟨st₁, f, first⟩ := ends 1 inner body _ (rounds_start now)
    have go (m : Nat) (le : f ≤ m) := rounds_next (d := d) now (Task.run_of_le le first)
    have later : ∀ k : Nat, k < N → c.holds (compare (i + d + k * d) b) = true := by
      intro k lt
      have := more (k + 1) (Nat.succ_lt_succ lt)
      push_cast at this
      rwa [show i + d + k * d = i + (k + 1) * d by ring]
    have endsLater : (roundsFrom σ inner var c b d body (i + d)).BlocksEnd st₁ := by
      intro n inner' body' st₂ mem
      refine ends (max f n + 1) inner' body' st₂ ?_
      rw [(go _ (Nat.le_max_left f n)).2]
      exact List.mem_cons_of_mem _
        ((Task.parts_prefix (Nat.le_max_right f n) _ st₁).subset mem)
    obtain ⟨n, st', stores, visits, rest⟩ :=
      ih (Nat.lt_of_lt_of_le placed (size_le_of_round first)) later endsLater
    refine ⟨max f n, st', st.counting σ var i :: stores, visits.cons placed, ?_⟩
    intro m le
    obtain ⟨run, parts⟩ := go (m + N) (by omega)
    obtain ⟨run', parts'⟩ := rest m (by omega)
    have same : i + d + N * d = i + (N + 1 : Nat) * d := by
      push_cast
      ring
    rw [same] at run' parts'
    rw [show m + (N + 1) = m + N + 1 by omega]
    exact ⟨run.trans run', parts.trans (by rw [parts', List.map_cons, List.cons_append])⟩

/-! ### Whole loops -/

/-- With enough fuel a statement evaluates the parts `heads` and then makes the rounds of a loop
from the counter `i` on. -/
def Opens (σ : Nat) (loop : Stmt) (st : Store) (heads : List (Task × Store)) (inner : Nat)
    (var : String) (c : Comparison) (b d : Int) (body : Block) (i : Int) (st₁ : Store) : Prop :=
  ∃ n, ∀ m, n ≤ m →
    (Task.stmt σ loop).run (m + 1) st = (roundsFrom σ inner var c b d body i).run m st₁ ∧
      (Task.stmt σ loop).parts (m + 1) st =
        heads ++ (roundsFrom σ inner var c b d body i).parts m st₁

variable {loop : Stmt} {heads : List (Task × Store)} {st₁ : Store}

theorem Opens.blocksEnd (opens : Opens σ loop st heads inner var c b d body i st₁)
    (ends : (Task.stmt σ loop).BlocksEnd st) :
    (roundsFrom σ inner var c b d body i).BlocksEnd st₁ := by
  obtain ⟨n, opens⟩ := opens
  intro m inner' body' st₂ mem
  refine ends (max n m + 1) inner' body' st₂ ?_
  rw [(opens _ (Nat.le_max_left n m)).2]
  exact List.mem_append_right _ ((Task.parts_prefix (Nat.le_max_right n m) _ st₁).subset mem)

/-- The first `N` rounds of a loop. -/
theorem Opens.first (opens : Opens σ loop st heads inner var c b d body i st₁)
    (placed : σ < st₁.forest.scopes.size)
    (more : ∀ k : Nat, k < N → c.holds (compare (i + k * d) b) = true)
    (ends : (Task.stmt σ loop).BlocksEnd st) :
    ∃ n st' stores, Visits σ var i d N stores ∧ ∀ m, n ≤ m →
      (Task.stmt σ loop).run (m + N + 1) st =
          (roundsFrom σ inner var c b d body (i + N * d)).run m st' ∧
        (Task.stmt σ loop).parts (m + N + 1) st =
          heads ++ stores.map (fun st => (Task.block inner body, st)) ++
            (roundsFrom σ inner var c b d body (i + N * d)).parts m st' := by
  obtain ⟨n, st', stores, visits, rest⟩ := counted_first placed more (opens.blocksEnd ends)
  obtain ⟨n', opens⟩ := opens
  refine ⟨max n n', st', stores, visits, fun m le => ?_⟩
  obtain ⟨run, parts⟩ := opens (m + N) (by omega)
  obtain ⟨run', parts'⟩ := rest m (by omega)
  exact ⟨run.trans run', by rw [parts, parts', List.append_assoc]⟩

/-- A loop whose counter passes the end after `N` rounds ends normally after these rounds. -/
theorem Opens.ends (opens : Opens σ loop st heads inner var c b d body i st₁)
    (placed : σ < st₁.forest.scopes.size)
    (count : ∀ k : Nat, c.holds (compare (i + k * d) b) = true ↔ k < N)
    (ends : (Task.stmt σ loop).BlocksEnd st) :
    ∃ n st' stores, Visits σ var i d N stores ∧ ∀ m, n ≤ m →
      stmt m σ loop st = .ok () st' ∧
        (Task.stmt σ loop).parts m st =
          heads ++ stores.map (fun st => (Task.block inner body, st)) := by
  obtain ⟨n, st', stores, visits, rounds⟩ :=
    opens.first placed (fun k lt => (count k).mpr lt) ends
  have past : c.holds (compare (i + N * d) b) = false := by
    have := mt (count N).mp (Nat.lt_irrefl N)
    simpa using this
  refine ⟨n + 1 + N + 1, st', stores, visits, fun m le => ?_⟩
  obtain ⟨k, rfl⟩ : ∃ k, m = k + 1 + N + 1 := ⟨m - (N + 2), by omega⟩
  obtain ⟨run, parts⟩ := rounds (k + 1) (by omega)
  obtain ⟨run', parts'⟩ := rounds_past k σ inner var d body st' past
  exact ⟨run.trans run', by rw [parts, parts', List.append_nil]⟩

/-- A loop whose counter never passes the end makes ever more rounds and never ends. -/
theorem Opens.endless (opens : Opens σ loop st heads inner var c b d body i st₁)
    (placed : σ < st₁.forest.scopes.size)
    (always : ∀ k : Nat, c.holds (compare (i + k * d) b) = true)
    (ends : (Task.stmt σ loop).BlocksEnd st) :
    (∀ m, ∃ st', stmt m σ loop st = .error .outOfFuel st') ∧
      ∀ N, ∃ n stores, Visits σ var i d N stores ∧ ∀ m, n ≤ m →
        heads ++ stores.map (fun st => (Task.block inner body, st)) <+:
          (Task.stmt σ loop).parts m st := by
  have rounds (N : Nat) : ∃ n stores, Visits σ var i d N stores ∧ ∀ m, n ≤ m →
      heads ++ stores.map (fun st => (Task.block inner body, st)) <+:
        (Task.stmt σ loop).parts m st := by
    obtain ⟨n, st', stores, visits, rounds⟩ :=
      opens.first (N := N) placed (fun k _ => always k) ends
    refine ⟨n + N + 1, stores, visits, fun m le => ?_⟩
    refine List.IsPrefix.trans ?_ (Task.parts_prefix le _ st)
    rw [(rounds n (Nat.le_refl n)).2]
    exact List.prefix_append _ _
  refine ⟨fun m => ?_, rounds⟩
  by_contra settled
  -- With more fuel there would be no more parts, but there are more than any number of them.
  obtain ⟨n, stores, visits, within⟩ := rounds (((Task.stmt σ loop).parts m st).length + 1)
  have same : (Task.stmt σ loop).parts (max m n) st = (Task.stmt σ loop).parts m st :=
    Task.parts_of_settled (t := .stmt σ loop) (Nat.le_max_left m n) (not_exists.mp settled)
  have short := (within (max m n) (Nat.le_max_right m n)).length_le
  have long : stores.length = ((Task.stmt σ loop).parts m st).length + 1 := by
    simpa using congrArg List.length visits
  rw [same, List.length_append, List.length_map] at short
  omega

/-! ### The heads of loops -/

/-- How a loop gets its step. Without an expression for it the direction decides. -/
def stepPlan (σ : Nat) (upward : Bool) : Option Expr → Plan Datum
  | none => .act (pure (.int (if upward then 1 else -1)))
  | some e => (Plan.value σ e).bind fun v => .act (pure v.datum)

variable {start stop : Expr} {step : Option Expr} {varLine line : Line} {v w u : Value} {a : Int}
  {st₂ st₃ : Store} {steps : List (Task × Store)}

theorem plan_count : Plan.stmt σ (.count var varLine start stop step body line) =
    (Plan.value σ start).bind fun i => (Plan.value σ stop).bind fun last =>
      (Plan.act (childScope σ)).bind fun inner =>
        (Plan.act (lift (i.datum.ordered .lt last.datum))).bind fun upward =>
          (stepPlan σ upward step).bind fun delta => .eval
            (.counted σ inner var (if upward then .le else .ge) last.datum delta body i.datum) := by
  cases step <;> rfl

/-- A loop evaluates its start, its end and its step, in this order; between the end and the step it
makes the scope of its body and compares. -/
theorem opens_count (first : (Task.expr σ start).Completes st (some v) st₁)
    (isA : v.datum = .int a) (second : (Task.expr σ stop).Completes st₁ (some w) st₂)
    (isB : w.datum = .int b)
    (third : ∀ m, n ≤ m →
      (stepPlan σ (decide (a < b)) step).exec (Task.run m) (st₂.child σ) = .ok (.int d) st₃ ∧
        (stepPlan σ (decide (a < b)) step).parts m (st₂.child σ) = steps) :
    Opens σ (.count var varLine start stop step body line) st
      ((.expr σ start, st) :: (.expr σ stop, st₁) :: steps) st₂.forest.scopes.size var
      (if a < b then .le else .ge) b d body a st₃ := by
  obtain ⟨n₁, first⟩ := first
  obtain ⟨n₂, second⟩ := second
  refine ⟨max n (max n₁ n₂), fun m le => ?_⟩
  replace first := Plan.exec_value.mpr (Task.run_of_le (by omega : n₁ ≤ m) first)
  replace second := Plan.exec_value.mpr (Task.run_of_le (by omega : n₂ ≤ m) second)
  obtain ⟨third, evaluated⟩ := third m (by omega)
  have child : (Plan.act (childScope σ)).exec (Task.run m) st₂ =
      .ok st₂.forest.scopes.size (st₂.child σ) := rfl
  have upward : (Plan.act (lift (v.datum.ordered .lt w.datum))).exec (Task.run m) (st₂.child σ) =
      .ok (decide (a < b)) (st₂.child σ) := by
    rw [isA, isB, Datum.ordered_int,
      Bool.eq_iff_iff.mpr (Comparison.lt_holds.trans decide_eq_true_iff.symm)]
    rfl
  rw [Task.run_succ, Task.parts_succ, Task.plan, plan_count,
    Plan.exec_bind_of_ok first, Plan.parts_bind_of_ok first,
    Plan.exec_bind_of_ok second, Plan.parts_bind_of_ok second,
    Plan.exec_bind_of_ok child, Plan.parts_bind_of_ok child,
    Plan.exec_bind_of_ok upward, Plan.parts_bind_of_ok upward,
    Plan.exec_bind_of_ok third, Plan.parts_bind_of_ok third, evaluated,
    Plan.parts_value, Plan.parts_value, Plan.parts_eval_round rfl, isA, isB,
    show (if decide (a < b) = true then Comparison.le else .ge) = if a < b then .le else .ge by
      simp]
  exact ⟨rfl, rfl⟩

/-- No scope is gone after the evaluation of an expression. -/
theorem size_le_of_value {e : Expr} {o : Option Value}
    (done : (Task.expr σ e).Completes st o st') :
    st.forest.scopes.size ≤ st'.forest.scopes.size := by
  obtain ⟨n, done⟩ := done
  have confined := (tidy n).expr σ e st (Nat.zero_le _)
  have done : expr n σ e st = .ok o st' := done
  rw [done] at confined
  exact confined.size

theorem opens_by_one (var : String) (varLine line : Line) (body : Block)
    (first : (Task.expr σ start).Completes st (some v) st₁)
    (isA : v.datum = .int a) (second : (Task.expr σ stop).Completes st₁ (some w) st₂)
    (isB : w.datum = .int b) :
    Opens σ (.count var varLine start stop none body line) st
      [(.expr σ start, st), (.expr σ stop, st₁)] st₂.forest.scopes.size var
      (if a < b then .le else .ge) b (if a < b then 1 else -1) body a (st₂.child σ) := by
  refine opens_count (n := 0) first isA second isB fun m _ => ⟨?_, rfl⟩
  simp only [stepPlan, decide_eq_true_eq]
  rfl

theorem opens_by_step (var : String) (varLine line : Line) (body : Block) {e : Expr}
    (first : (Task.expr σ start).Completes st (some v) st₁)
    (isA : v.datum = .int a) (second : (Task.expr σ stop).Completes st₁ (some w) st₂)
    (isB : w.datum = .int b) (third : (Task.expr σ e).Completes (st₂.child σ) (some u) st₃)
    (isD : u.datum = .int d) :
    Opens σ (.count var varLine start stop (some e) body line) st
      [(.expr σ start, st), (.expr σ stop, st₁), (.expr σ e, st₂.child σ)]
      st₂.forest.scopes.size var (if a < b then .le else .ge) b d body a st₃ := by
  obtain ⟨n, third⟩ := third
  refine opens_count (n := n) first isA second isB fun m le => ?_
  replace third := Plan.exec_value.mpr (Task.run_of_le le third)
  rw [stepPlan, Plan.exec_bind_of_ok third, Plan.parts_bind_of_ok third, Plan.parts_value, isD]
  exact ⟨rfl, rfl⟩

/-! ### The body of a loop -/

section

variable {inner' : Nat} {last delta j : Datum} {body' : Block}

/-- The rounds of a loop start no block but its body. -/
theorem body_of_mem_rounds
    (mem : (.block inner' body', st₁) ∈
      (Task.counted σ inner var c last delta body j).parts n st) : body' = body := by
  induction n generalizing j st with
  | zero => exact absurd mem List.not_mem_nil
  | succ n ih =>
    rw [Task.parts_succ, Task.plan, Plan.counted] at mem
    rcases Plan.parts_of_mem_bind mem with mem | ⟨more, st₂, -, mem⟩
    · exact absurd mem List.not_mem_nil
    cases more with
    | false => exact absurd mem List.not_mem_nil
    | true =>
      rw [if_pos rfl] at mem
      rcases Plan.parts_of_mem_bind mem with mem | ⟨_, st₃, -, mem⟩
      · exact absurd mem List.not_mem_nil
      rcases Plan.parts_of_mem_bind mem with mem | ⟨_, st₄, -, mem⟩
      · rw [Plan.parts_eval rfl] at mem
        cases List.mem_singleton.mp mem
        rfl
      rcases Plan.parts_of_mem_bind mem with mem | ⟨next, st₅, -, mem⟩
      · exact absurd mem List.not_mem_nil
      rw [Plan.parts_eval_round rfl] at mem
      exact ih mem

theorem body_of_mem_count
    (mem : (.block inner' body', st₁) ∈
      (Task.stmt σ (.count var varLine start stop step body line)).parts n st) : body' = body := by
  cases n with
  | zero => exact absurd mem List.not_mem_nil
  | succ n =>
    have value {e : Expr} {st : Store} :
        (.block inner' body', st₁) ∉ (Plan.value σ e).parts n st := by
      rw [Plan.parts_value]
      intro mem
      cases List.mem_singleton.mp mem
    rw [Task.parts_succ, Task.plan, plan_count] at mem
    rcases Plan.parts_of_mem_bind mem with mem | ⟨_, _, -, mem⟩
    · exact absurd mem value
    rcases Plan.parts_of_mem_bind mem with mem | ⟨_, _, -, mem⟩
    · exact absurd mem value
    rcases Plan.parts_of_mem_bind mem with mem | ⟨_, _, -, mem⟩
    · exact absurd mem List.not_mem_nil
    rcases Plan.parts_of_mem_bind mem with mem | ⟨upward, _, -, mem⟩
    · exact absurd mem List.not_mem_nil
    rcases Plan.parts_of_mem_bind mem with mem | ⟨_, _, -, mem⟩
    · cases step with
      | none => exact absurd mem List.not_mem_nil
      | some e =>
        rcases Plan.parts_of_mem_bind mem with mem | ⟨_, _, -, mem⟩
        · exact absurd mem value
        · exact absurd mem List.not_mem_nil
    rw [Plan.parts_eval_round rfl] at mem
    exact body_of_mem_rounds mem

/-- A body that ends normally in all stores does so whenever a loop starts it. -/
theorem blocksEnd_of_always
    (always : ∀ inner st, ∃ st', (Task.block inner body).Completes st () st') :
    (Task.stmt σ (.count var varLine start stop step body line)).BlocksEnd st := by
  intro n inner body' st₁ mem
  cases body_of_mem_count mem
  exact always inner st₁

end

/-! ### Loops without a step -/

/-- How many rounds a loop by one makes from `a` to `b`, upward or downward. -/
theorem passes_by_one (a b : Int) (k : Nat) :
    (if a < b then Comparison.le else .ge).holds
        (compare (a + k * (if a < b then 1 else -1)) b) = true ↔ k < (b - a).natAbs + 1 := by
  split
  · rw [Comparison.le_holds]
    omega
  · rw [Comparison.ge_holds]
    omega

/-- A loop without a step, from the whole number `a` to the whole number `b`, whose body ends
normally whenever it is started. With enough fuel it ends normally. It evaluates its start and its
end once and then executes its body `|b - a| + 1` times, and when it starts the body for the `k`-th
time, the variable has the value `a + k` if `a < b`, and `a - k` otherwise. -/
theorem count_visits_between (σ : Nat) (var : String) (varLine line : Line) (start stop : Expr)
    (body : Block) (st st₁ st₂ : Store) (v w : Value) (a b : Int)
    (placed : σ < st.forest.scopes.size)
    (first : (Task.expr σ start).Completes st (some v) st₁) (isA : v.datum = .int a)
    (second : (Task.expr σ stop).Completes st₁ (some w) st₂) (isB : w.datum = .int b)
    (ends : (Task.stmt σ (.count var varLine start stop none body line)).BlocksEnd st) :
    ∃ (n : Nat) (st' : Store) (stores : List Store),
      stores.map (fun store => store.forest.getVar σ var) =
        (List.range ((b - a).natAbs + 1)).map
          (fun k : Nat => some (.number (.int (if a < b then a + k else a - k)))) ∧
      ∀ m, n ≤ m →
        stmt m σ (.count var varLine start stop none body line) st = .ok () st' ∧
        (Task.stmt σ (.count var varLine start stop none body line)).parts m st =
          (.expr σ start, st) :: (.expr σ stop, st₁) ::
            stores.map (fun store => (Task.block st₂.forest.scopes.size body, store)) := by
  have opens := opens_by_one var varLine line body first isA second isB
  have placed' : σ < (st₂.child σ).forest.scopes.size := by
    have := size_le_of_value first
    have := size_le_of_value second
    rw [Store.size_child]
    omega
  obtain ⟨n, st', stores, visits, done⟩ := opens.ends placed' (passes_by_one a b) ends
  refine ⟨n, st', stores, visits.trans (List.map_congr_left fun k _ => ?_), done⟩
  congr 3
  split <;> omega

/-- The statements `x := true` and `hi := true`. -/
def overwriting : Block :=
  .mk [.assign (.name "x" 2) (.bool true 2) 2, .assign (.name "hi" 3) (.bool true 3) 3] 2

theorem assign_bool (n σ : Nat) (x : String) (b : Bool) (nameLine boolLine line : Line)
    (st : Store) :
    stmt (n + 2) σ (.assign (.name x nameLine) (.bool b boolLine) line) st =
      .ok () { st with forest := st.forest.setVar σ x (some (.bool b)) } := by
  rw [stmt, expr]
  rfl

theorem overwriting_completes (inner : Nat) (st : Store) :
    ∃ st', (Task.block inner overwriting).Completes st () st' := by
  suffices done : ∃ st', block 5 inner overwriting st = .ok () st' from
    done.imp fun _ done => ⟨5, done⟩
  rw [block, overwriting, Block.stmts, stmts, bind_of_ok (assign_bool ..), stmts,
    bind_of_ok (assign_bool ..), stmts]
  exact ⟨_, rfl⟩

/-- A store with the bounds `lo` and `hi` and the step `by`. -/
def boundedBy (lo hi step : Int) : Store :=
  ⟨⟨#[⟨[("lo", some (.number (.int lo))), ("hi", some (.number (.int hi))),
    ("by", some (.number (.int step)))], [], none⟩]⟩, ""⟩

theorem lo_completes (a b s : Int) :
    (Task.expr 0 (.name "lo" 1)).Completes (boundedBy a b s) (some (.number (.int a)))
      (boundedBy a b s) := ⟨1, by cbv⟩

theorem hi_completes (a b s : Int) :
    (Task.expr 0 (.name "hi" 1)).Completes (boundedBy a b s) (some (.number (.int b)))
      (boundedBy a b s) := ⟨1, by cbv⟩

theorem by_completes (a b s : Int) :
    (Task.expr 0 (.name "by" 1)).Completes ((boundedBy a b s).child 0) (some (.number (.int s)))
      ((boundedBy a b s).child 0) := ⟨1, by cbv⟩

/-- Going downward over zero, with a body that overwrites the variable and its bound. -/
theorem overwriting_visits :
    ∃ (n : Nat) (st' : Store) (stores : List Store),
      stores.map (fun store => store.forest.getVar 0 "x") =
        [some (.number (.int 2)), some (.number (.int 1)), some (.number (.int 0)),
          some (.number (.int (-1)))] ∧
      stmt n 0 (.count "x" 1 (.name "lo" 1) (.name "hi" 1) none overwriting 1)
        (boundedBy 2 (-1) 1) = .ok () st' := by
  obtain ⟨n, st', stores, visits, done⟩ := count_visits_between 0 "x" 1 1 (.name "lo" 1)
    (.name "hi" 1) overwriting (boundedBy 2 (-1) 1) _ _ _ _ 2 (-1) Nat.zero_lt_one
    (lo_completes 2 (-1) 1) rfl (hi_completes 2 (-1) 1) rfl
    (blocksEnd_of_always overwriting_completes)
  exact ⟨n, st', stores, visits, (done n (Nat.le_refl n)).1⟩

/-! ### Loops with a step -/

theorem passes_upward {s : Int} (up : 1 ≤ s) (a b : Int) (k : Nat) :
    Comparison.le.holds (compare (a + k * s) b) = true ↔ k < ((b - a).fdiv s + 1).toNat := by
  rw [Comparison.le_holds, Int.lt_toNat, Int.fdiv_eq_ediv_of_nonneg _ (by omega),
    Int.lt_add_one_iff, Int.le_ediv_iff_mul_le (by omega)]
  omega

theorem passes_downward {s : Int} (down : s ≤ -1) (a b : Int) (k : Nat) :
    Comparison.ge.holds (compare (a + k * s) b) = true ↔ k < ((b - a).fdiv s + 1).toNat := by
  rw [Comparison.ge_holds, Int.lt_toNat, ← Int.neg_fdiv_neg,
    Int.fdiv_eq_ediv_of_nonneg _ (by omega), Int.lt_add_one_iff,
    Int.le_ediv_iff_mul_le (by omega), mul_neg]
  omega

/-- How many rounds a loop makes from `a` to `b` by a step that leads from `a` towards `b`. -/
theorem passes_towards {a b s : Int} (towards : a ≤ b ∧ 1 ≤ s ∨ b ≤ a ∧ s ≤ -1)
    (uneven : ¬(a = b ∧ 1 ≤ s)) (k : Nat) :
    (if a < b then Comparison.le else .ge).holds (compare (a + k * s) b) = true ↔
      k < ((b - a).fdiv s + 1).toNat := by
  rcases towards with ⟨le, up⟩ | ⟨ge, down⟩
  · rw [if_pos (by omega)]
    exact passes_upward up a b k
  · rw [if_neg (by omega)]
    exact passes_downward down a b k

/-- A loop that goes downward from `a` to `a` passes no number above `a`. -/
theorem passes_endlessly {a s : Int} (up : 1 ≤ s) (k : Nat) :
    (if a < a then Comparison.le else .ge).holds (compare (a + k * s) a) = true := by
  rw [if_neg (lt_irrefl a), Comparison.ge_holds]
  have : 0 ≤ (k : Int) * s := by positivity
  omega

theorem rounds_nonneg {a b s : Int} (towards : a ≤ b ∧ 1 ≤ s ∨ b ≤ a ∧ s ≤ -1) :
    0 ≤ (b - a).fdiv s + 1 := by
  have : 0 ≤ (b - a).fdiv s := by
    rcases towards with ⟨le, up⟩ | ⟨ge, down⟩
    · exact Int.fdiv_nonneg (by omega) (by omega)
    · rw [← Int.neg_fdiv_neg]
      exact Int.fdiv_nonneg (by omega) (by omega)
  omega

/-- A loop with a step, from the whole number `a` to the whole number `b` by the whole number `s`,
which leads from `a` towards `b`, and whose body ends normally whenever it is started. If it is not
to go upward from a number to the same number, then with enough fuel it ends normally. It evaluates
its start, its end and its step once and then executes its body `(b - a) / s + 1` times, rounded
down, and when it starts the body for the `k`-th time, the variable has the value `a + k * s`. From
a number upward to the same number it never ends: it goes downward from `a` by a step that leads
upward, and so executes its body for all of `a`, `a + s`, `a + 2 * s` and so on. -/
theorem stepped_count_rounds (σ : Nat) (var : String) (varLine line : Line) (start stop e : Expr)
    (body : Block) (st st₁ st₂ st₃ : Store) (v w u : Value) (a b s : Int)
    (placed : σ < st.forest.scopes.size)
    (first : (Task.expr σ start).Completes st (some v) st₁) (isA : v.datum = .int a)
    (second : (Task.expr σ stop).Completes st₁ (some w) st₂) (isB : w.datum = .int b)
    (third : (Task.expr σ e).Completes (st₂.child σ) (some u) st₃) (isS : u.datum = .int s)
    (towards : a ≤ b ∧ 1 ≤ s ∨ b ≤ a ∧ s ≤ -1)
    (ends : (Task.stmt σ (.count var varLine start stop (some e) body line)).BlocksEnd st) :
    (¬(a = b ∧ 1 ≤ s) → ∃ (n : Nat) (st' : Store) (stores : List Store),
      (stores.length : Int) = (b - a).fdiv s + 1 ∧
      stores.map (fun store => store.forest.getVar σ var) =
        (List.range stores.length).map (fun k : Nat => some (.number (.int (a + k * s)))) ∧
      ∀ m, n ≤ m →
        stmt m σ (.count var varLine start stop (some e) body line) st = .ok () st' ∧
        (Task.stmt σ (.count var varLine start stop (some e) body line)).parts m st =
          [(.expr σ start, st), (.expr σ stop, st₁), (.expr σ e, st₂.child σ)] ++
            stores.map (fun store => (Task.block st₂.forest.scopes.size body, store))) ∧
    (a = b ∧ 1 ≤ s →
      (∀ m, ∃ st', stmt m σ (.count var varLine start stop (some e) body line) st =
        .error .outOfFuel st') ∧
      ∀ N : Nat, ∃ (n : Nat) (stores : List Store),
        stores.map (fun store => store.forest.getVar σ var) =
          (List.range N).map (fun k : Nat => some (.number (.int (a + k * s)))) ∧
        ∀ m, n ≤ m →
          [(.expr σ start, st), (.expr σ stop, st₁), (.expr σ e, st₂.child σ)] ++
              stores.map (fun store => (Task.block st₂.forest.scopes.size body, store)) <+:
            (Task.stmt σ (.count var varLine start stop (some e) body line)).parts m st) := by
  have opens := opens_by_step var varLine line body first isA second isB third isS
  have placed' : σ < st₃.forest.scopes.size := by
    have := size_le_of_value first
    have := size_le_of_value second
    have := size_le_of_value third
    have := st₂.size_child σ
    omega
  constructor
  · intro uneven
    obtain ⟨n, st', stores, visits, done⟩ :=
      opens.ends placed' (passes_towards towards uneven) ends
    have length : stores.length = ((b - a).fdiv s + 1).toNat := by
      simpa using congrArg List.length visits
    refine ⟨n, st', stores, ?_, ?_, done⟩
    · rw [length, Int.toNat_of_nonneg (rounds_nonneg towards)]
    · rw [length]
      exact visits
  · rintro ⟨rfl, up⟩
    refine opens.endless placed' (fun k => ?_) ends
    exact passes_endlessly up k

/-- The program `for x := lo, hi, by do x := true hi := true end`. -/
def stepped : Stmt :=
  .count "x" 1 (.name "lo" 1) (.name "hi" 1) (some (.name "by" 1)) overwriting 1

/-- From one to six by two there are three rounds. -/
theorem stepped_one_three_five :
    ∃ (n : Nat) (st' : Store) (stores : List Store),
      stores.map (fun store => store.forest.getVar 0 "x") =
        [some (.number (.int 1)), some (.number (.int 3)), some (.number (.int 5))] ∧
      stmt n 0 stepped (boundedBy 1 6 2) = .ok () st' := by
  obtain ⟨n, st', stores, count, visits, done⟩ := (stepped_count_rounds 0 "x" 1 1 (.name "lo" 1)
    (.name "hi" 1) (.name "by" 1) overwriting (boundedBy 1 6 2) _ _ _ _ _ _ 1 6 2 Nat.zero_lt_one
    (lo_completes 1 6 2) rfl (hi_completes 1 6 2) rfl (by_completes 1 6 2) rfl (by decide)
    (blocksEnd_of_always overwriting_completes)).1 (by decide)
  have three : stores.length = 3 := Int.ofNat_inj.mp count
  rw [three] at visits
  exact ⟨n, st', stores, visits, (done n (Nat.le_refl n)).1⟩

/-- From one upward to one there is no last round. -/
theorem stepped_one_to_one_endless :
    (Task.stmt 0 stepped).BlocksEnd (boundedBy 1 1 1) ∧
      ∀ fuel, ∃ st', stmt fuel 0 stepped (boundedBy 1 1 1) = .error .outOfFuel st' := by
  have ends : (Task.stmt 0 stepped).BlocksEnd (boundedBy 1 1 1) :=
    blocksEnd_of_always overwriting_completes
  have opens := opens_by_step "x" 1 1 overwriting (lo_completes 1 1 1) rfl (hi_completes 1 1 1) rfl
    (by_completes 1 1 1) rfl
  exact ⟨ends, (opens.endless (by decide) (passes_endlessly (by decide)) ends).1⟩

end Eval

end ScriptLang
