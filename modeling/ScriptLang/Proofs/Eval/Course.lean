import ScriptLang.Proofs.Eval.Moments

/-!
The course of a task.

The course lists the tasks that a task starts, in their order and with the stores at their starts.
Of the tasks that are entered it lists what they start in their turn: the rounds of a loop, or all
statements of a running function. With more fuel a course only goes on, and that of a task which
does not run out of fuel stays as it is (`Task.grows`).
-/

namespace ScriptLang.Eval

variable {α β : Type} {enter : Task → Bool} {n m : Nat} {st st' : Store}

/-- What an event adds to a course: the task that starts, and its course `inside` if it is
entered. -/
def Event.entries (enter : Task → Bool) (inside : Task → Store → List (Task × Store)) :
    Event → List (Task × Store)
  | .start t st => (t, st) :: if enter t then inside t st else []
  | .done _ => []

/-- The tasks that a task starts with some fuel, in their order. -/
def Task.course (enter : Task → Bool) : Nat → Task → Store → List (Task × Store)
  | 0, _, _ => []
  | n + 1, t, st => (t.plan.events (Task.run n) st).flatMap (Event.entries enter (course enter n))

/-- The tasks that are started while a plan is followed. -/
def Plan.course (enter : Task → Bool) (n : Nat) (p : Plan α) (st : Store) : List (Task × Store) :=
  (p.events (Task.run n) st).flatMap (Event.entries enter (Task.course enter n))

theorem Task.course_succ (t : Task) : t.course enter (n + 1) st = t.plan.course enter n st := rfl

/-- Every task of a course is evaluated in the course of the task itself. -/
theorem Task.reaches_of_mem_course {t : Task} {q : Task × Store} (mem : q ∈ t.course enter n st) :
    ∃ m, Reaches ⟨n, t, st⟩ ⟨m, q.1, q.2⟩ := by
  induction n generalizing t st with
  | zero => exact absurd mem List.not_mem_nil
  | succ n ih =>
    obtain ⟨e, among, mem⟩ := List.mem_flatMap.mp mem
    cases e with
    | done st₁ => exact absurd mem List.not_mem_nil
    | start t' st' =>
      rcases List.mem_cons.mp mem with rfl | mem
      · exact ⟨n, .step (.intro among) (.refl _)⟩
      · split at mem
        · obtain ⟨m, reaches⟩ := ih mem
          exact ⟨m, .step (.intro among) reaches⟩
        · exact absurd mem List.not_mem_nil

namespace Plan

variable {p : Plan α} {k : α → Plan β}

theorem exec_bind_of_ok {a : α} {st₁ : Store} (done : p.exec (Task.run n) st = .ok a st₁) :
    (p.bind k).exec (Task.run n) st = (k a).exec (Task.run n) st₁ := bind_of_ok done

theorem course_eval (t : Task) : (eval t).course enter n st =
    (t, st) :: if enter t then t.course enter n st else [] := by
  simp [course, events, Event.entries]

theorem course_bind_of_ok {a : α} {st₁ : Store} (done : p.exec (Task.run n) st = .ok a st₁) :
    (p.bind k).course enter n st = p.course enter n st ++ (k a).course enter n st₁ := by
  simp only [course, events, done, List.flatMap_append]

theorem course_bind_of_error {e : Stop} {st₁ : Store}
    (stopped : p.exec (Task.run n) st = .error e st₁) :
    (p.bind k).course enter n st = p.course enter n st := by
  simp only [course, events, stopped, List.append_nil]

theorem course_bind_prefix : p.course enter n st <+: (p.bind k).course enter n st := by
  cases done : p.exec (Task.run n) st with
  | ok a st₁ =>
    rw [course_bind_of_ok done]
    exact List.prefix_append _ _
  | error e st₁ => exact ⟨[], (List.append_nil _).trans (course_bind_of_error done).symm⟩

end Plan

/-! ### More fuel -/

/-- With one more unit of fuel a task that ran out of it may go on; any other does the same. -/
def Task.Grows (enter : Task → Bool) (n : Nat) (t : Task) (st : Store) : Prop :=
  (∃ st', t.run n st = .error .outOfFuel st') ∧
      t.course enter n st <+: t.course enter (n + 1) st ∨
    t.run n st = t.run (n + 1) st ∧ t.course enter n st = t.course enter (n + 1) st

/-- A plan goes on, or is followed in the same way, if this holds of the tasks in it. -/
theorem Plan.grows (ih : ∀ t st, Task.Grows enter n t st) (p : Plan α) (st : Store) :
    (∃ st', p.exec (Task.run n) st = .error .outOfFuel st') ∧
        p.course enter n st <+: p.course enter (n + 1) st ∨
      p.exec (Task.run n) st = p.exec (Task.run (n + 1)) st ∧
        p.course enter n st = p.course enter (n + 1) st := by
  induction p generalizing st with
  | act x => exact .inr ⟨rfl, rfl⟩
  | eval t =>
    rw [course_eval, course_eval]
    rcases ih t st with ⟨out, goes⟩ | ⟨same, eq⟩
    · refine .inl ⟨out, List.cons_prefix_cons.mpr ⟨rfl, ?_⟩⟩
      split
      · exact goes
      · exact List.prefix_rfl
    · exact .inr ⟨same, by rw [eq]⟩
  | bind p k first rest =>
    rcases first st with ⟨⟨st', out⟩, goes⟩ | ⟨same, eq⟩
    · rw [course_bind_of_error out]
      exact .inl ⟨⟨st', bind_of_error out⟩, goes.trans course_bind_prefix⟩
    · cases done : p.exec (Task.run n) st with
      | ok a st₁ =>
        have done' := same.symm.trans done
        rw [course_bind_of_ok done, course_bind_of_ok done', eq, exec, exec, bind_of_ok done,
          bind_of_ok done']
        rcases rest a st₁ with ⟨out, goes⟩ | ⟨same, eq⟩
        · exact .inl ⟨out, (List.prefix_append_right_inj _).mpr goes⟩
        · exact .inr ⟨same, by rw [eq]⟩
      | error e st₁ =>
        have done' := same.symm.trans done
        rw [course_bind_of_error done, course_bind_of_error done', exec, exec,
          bind_of_error done, bind_of_error done']
        exact .inr ⟨rfl, eq⟩
  | returning p inside =>
    rcases inside st with ⟨⟨st', out⟩, goes⟩ | ⟨same, eq⟩
    · refine .inl ⟨⟨st', ?_⟩, goes⟩
      rw [exec, Eval.returning, out]
    · refine .inr ⟨?_, eq⟩
      rw [exec, exec, Eval.returning, Eval.returning, same]

-- By induction on the fuel: the tasks of a plan have one unit less than the plan's own task.
theorem Task.grows (enter : Task → Bool) (n : Nat) (t : Task) (st : Store) :
    t.Grows enter n st := by
  induction n generalizing t st with
  | zero =>
    refine .inl ⟨⟨st, ?_⟩, List.nil_prefix⟩
    rw [Task.run_zero]
    rfl
  | succ n ih =>
    rw [Task.Grows, Task.run_succ, Task.run_succ, Task.course_succ, Task.course_succ]
    exact Plan.grows ih t.plan st

/-- More fuel only adds to a course. -/
theorem Task.course_prefix (le : n ≤ m) (t : Task) (st : Store) :
    t.course enter n st <+: t.course enter m st := by
  induction le with
  | refl => exact List.prefix_rfl
  | @step m _ ih =>
    rcases t.grows enter m st with ⟨-, goes⟩ | ⟨-, eq⟩
    · exact ih.trans goes
    · exact eq ▸ ih

/-- More fuel changes neither the result of a task that has not run out of it, nor its course. -/
theorem Task.settled_of_le (enter : Task → Bool) {t : Task}
    {r : EStateM.Result Stop Store t.Result} (le : n ≤ m) (done : t.run n st = r)
    (settled : ∀ st', r ≠ .error .outOfFuel st') :
    t.run m st = r ∧ t.course enter m st = t.course enter n st := by
  induction le with
  | refl => exact ⟨done, rfl⟩
  | @step m _ ih =>
    rcases t.grows enter m st with ⟨⟨st', out⟩, -⟩ | ⟨same, eq⟩
    · exact absurd (ih.1.symm.trans out) (settled st')
    · exact ⟨same.symm.trans ih.1, eq.symm.trans ih.2⟩

/-- With enough fuel a task yields `a` and leaves the store `st'`. -/
def Task.Completes (t : Task) (st : Store) (a : t.Result) (st' : Store) : Prop :=
  ∃ n, t.run n st = .ok a st'

theorem Task.run_of_le {t : Task} {a : t.Result} (le : n ≤ m) (done : t.run n st = .ok a st') :
    t.run m st = .ok a st' :=
  (Task.settled_of_le (fun _ => false) le done (by rintro _ ⟨⟩)).1

/-! ### The parts of a loop -/

/-- A task that makes the rounds of a loop. -/
def Task.isRound : Task → Bool
  | .rounds _ _ _ _ _ | .counted _ _ _ _ _ _ _ _ => true
  | _ => false

/-- The parts of a statement that are evaluated, in their order. A loop is entered, so that the
tests and bodies of all its rounds are among its parts. -/
def Task.parts (n : Nat) (t : Task) (st : Store) : List (Task × Store) :=
  (t.course Task.isRound n st).filter fun p => !p.1.isRound

/-- Every block among the parts of a task ends normally. -/
def Task.BlocksEnd (t : Task) (st : Store) : Prop :=
  ∀ n inner b st₁, (.block inner b, st₁) ∈ t.parts n st →
    ∃ st₂, (Task.block inner b).Completes st₁ () st₂

theorem Task.parts_prefix (le : n ≤ m) (t : Task) (st : Store) : t.parts n st <+: t.parts m st :=
  (t.course_prefix le st).filter _

theorem Task.reaches_of_mem_parts {t : Task} {q : Task × Store} (mem : q ∈ t.parts n st) :
    ∃ m, Reaches ⟨n, t, st⟩ ⟨m, q.1, q.2⟩ :=
  Task.reaches_of_mem_course (List.mem_filter.mp mem).1

/-- A task that has not run out of fuel has no more parts with more of it. -/
theorem Task.parts_of_settled {t : Task} (le : n ≤ m)
    (settled : ∀ st', t.run n st ≠ .error .outOfFuel st') : t.parts m st = t.parts n st :=
  congrArg _ (Task.settled_of_le Task.isRound le rfl settled).2

/-- The parts that are evaluated while a plan is followed. -/
def Plan.parts (n : Nat) (p : Plan α) (st : Store) : List (Task × Store) :=
  (p.course Task.isRound n st).filter fun p => !p.1.isRound

theorem Task.parts_succ (t : Task) : t.parts (n + 1) st = t.plan.parts n st := rfl

namespace Plan

variable {p : Plan α} {k : α → Plan β}

@[simp] theorem parts_act (x : Eval α) : (act x).parts n st = [] := rfl

theorem parts_eval {t : Task} (other : t.isRound = false) :
    (eval t).parts n st = [(t, st)] := by
  simp [parts, course_eval, other]

/-- A task that makes rounds has its parts where it stands. -/
theorem parts_eval_round {t : Task} (round : t.isRound = true) :
    (eval t).parts n st = t.parts n st := by
  simp [parts, Task.parts, course_eval, round]

theorem parts_bind_of_ok {a : α} {st₁ : Store} (done : p.exec (Task.run n) st = .ok a st₁) :
    (p.bind k).parts n st = p.parts n st ++ (k a).parts n st₁ := by
  rw [parts, course_bind_of_ok done, List.filter_append]
  rfl

theorem parts_bind_of_error {e : Stop} {st₁ : Store}
    (stopped : p.exec (Task.run n) st = .error e st₁) :
    (p.bind k).parts n st = p.parts n st := by
  rw [parts, course_bind_of_error stopped]
  rfl

theorem parts_bind_prefix : p.parts n st <+: (p.bind k).parts n st :=
  course_bind_prefix.filter _

/-- A part of two plans in sequence is one of the first or, if that succeeds, of the second. -/
theorem parts_of_mem_bind {q : Task × Store} (mem : q ∈ (p.bind k).parts n st) :
    q ∈ p.parts n st ∨
      ∃ a st₁, p.exec (Task.run n) st = .ok a st₁ ∧ q ∈ (k a).parts n st₁ := by
  cases done : p.exec (Task.run n) st with
  | ok a st₁ =>
    rw [parts_bind_of_ok done, List.mem_append] at mem
    exact mem.imp_right fun mem => ⟨a, st₁, rfl, mem⟩
  | error e st₁ =>
    rw [parts_bind_of_error done] at mem
    exact .inl mem

theorem exec_value {σ : Nat} {e : Expr} {v : Value} :
    (value σ e).exec (Task.run n) st = .ok v st' ↔ Eval.expr n σ e st = .ok (some v) st' := by
  constructor
  · intro done
    obtain ⟨o, st₁, first, demanded⟩ := bind_eq_ok.mp done
    cases o with
    | none => cases demanded
    | some w =>
      cases demanded
      exact first
  · intro done
    exact exec_bind_of_ok (p := eval (.expr σ e)) done

theorem parts_value (σ : Nat) (e : Expr) : (value σ e).parts n st = [(.expr σ e, st)] := by
  rw [value]
  cases done : (eval (.expr σ e)).exec (Task.run n) st with
  | ok o st₁ => rw [parts_bind_of_ok done, parts_eval rfl, parts_act, List.append_nil]
  | error e st₁ => rw [parts_bind_of_error done, parts_eval rfl]

end Plan

end ScriptLang.Eval
