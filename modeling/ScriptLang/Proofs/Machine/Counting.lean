import Mathlib
import ScriptLang.Proofs.Machine.Start

/-!
How far the counted height is from the number of cells.

Every instruction that succeeds counts the cells it pushes and pops, whatever the program is and
however far the count is off (`Counts`). A start sets the count to zero and leaves the stack as it
is. So during a whole run the cells that are not counted are those that the run found on the stack
(`run_uncounted`), and the count is right exactly in runs that start on an empty stack.
-/

namespace ScriptLang.Machine

variable {α β : Type} {x : Step α} {f : α → Step β} {m m' : Machine}

/-- The number of cells that are not counted. -/
def uncounted (m : Machine) : Int := m.stack.size - m.sp

/-- A step that succeeds counts the cells it pushes and pops. -/
def Counts (x : Step α) : Prop :=
  ∀ ⦃m a m'⦄, x m = .ok a m' → m'.uncounted = m.uncounted

/-! ### Steps one after the other -/

theorem Counts.bind (h : Counts x) (h' : ∀ a, Counts (f a)) : Counts (x >>= f) := by
  intro m b m' given
  obtain ⟨a, m₁, first, second⟩ := bind_eq_ok.mp given
  exact (h' a second).trans (h first)

theorem pure_counts (a : α) : Counts (pure a : Step α) := by
  intro m b m' given
  obtain ⟨-, rfl⟩ := pure_eq_ok.mp given
  rfl

theorem throw_counts (e : Failure) : Counts (throw e : Step α) :=
  fun _ _ _ given => absurd given throw_ne_ok

theorem get_counts {g : Machine → Step β} (h : ∀ m, Counts (g m)) : Counts (get >>= g) :=
  fun m _ _ given => h m (get_bind.symm.trans given)

theorem modify_counts {g : Machine → Machine} (h : ∀ m, (g m).uncounted = m.uncounted) :
    Counts (modify g : Step PUnit) := by
  intro m a m' given
  cases given
  exact h m

theorem lift_counts (r : Except Fault α) : Counts (lift r) := by
  cases r with
  | ok a => exact pure_counts a
  | error f => exact throw_counts _

theorem report_counts (text : String) : Counts (report text : Step α) := by
  intro m a m' given
  cases given

/-! ### The stack -/

theorem push_counts (c : Cell) : Counts (push c) := by
  refine modify_counts fun m => ?_
  change ((m.stack.push c).size : Int) - (m.sp + 1) = m.stack.size - m.sp
  rw [Array.size_push]
  omega

theorem pop_counts : Counts pop := by
  intro m c m' given
  unfold pop at given
  split at given
  · next top =>
      cases given
      have size : m.stack.size ≠ 0 := by
        intro none
        rw [Array.eq_empty_of_size_eq_zero none] at top
        cases top
      change ((m.stack.pop).size : Int) - (m.sp - 1) = m.stack.size - m.sp
      rw [Array.size_pop]
      omega
  · cases given

theorem popValue_counts : Counts popValue := pop_counts.bind fun _ => lift_counts _

theorem cellAt_counts (i : Int) : Counts (cellAt i) := by
  refine get_counts fun m => ?_
  split
  · exact lift_counts _
  · exact throw_counts _

theorem setCellAt_counts (i : Int) (c : Cell) : Counts (setCellAt i c) := by
  refine get_counts fun m => ?_
  split
  · refine modify_counts fun m => ?_
    change ((m.stack.setIfInBounds _ c).size : Int) - m.sp = _
    rw [Array.size_setIfInBounds]
    rfl
  · exact throw_counts _

/-! ### Instructions -/

theorem jump_counts (name : Label) : Counts (jump name) := by
  refine Counts.bind (get_counts fun m => ?_) fun _ => modify_counts fun _ => rfl
  split
  · exact pure_counts _
  · exact throw_counts _

theorem pushResult_counts (message : String) (r : Except OperationError Value) :
    Counts (pushResult message r) := by
  match r with
  | .ok v => exact push_counts _
  | .error .tags => exact report_counts message
  | .error (.fault f) => exact throw_counts _

theorem print_counts (ending : String) : Counts (print ending) :=
  popValue_counts.bind fun _ => (lift_counts _).bind fun _ => modify_counts fun _ => rfl

theorem enter_counts (name : Label) : Counts (enter name) := by
  refine popValue_counts.bind fun _ => get_counts fun _ => (lift_counts _).bind fun _ => ?_
  exact Counts.bind (modify_counts fun _ => rfl) fun _ => jump_counts name

theorem aboveBase_counts : Counts aboveBase := by
  refine get_counts fun m => ?_
  split
  · exact throw_counts _
  · exact lift_counts _

theorem unwind_counts (n : Nat) : Counts (unwind n) := by
  induction n with
  | zero => exact pure_counts _
  | succ n ih =>
    refine aboveBase_counts.bind fun above => ?_
    split
    · exact pop_counts.bind fun _ => ih
    · exact pure_counts _

theorem leave_counts : Counts leave := by
  refine get_counts fun m => (cellAt_counts _).bind fun _ => (unwind_counts _).bind fun _ =>
    (push_counts _).bind fun _ => modify_counts fun m => ?_
  split <;> rfl

theorem loadGlobal_counts (slot : Slot) : Counts (loadGlobal slot) := by
  refine get_counts fun m => ?_
  split
  · exact push_counts _
  · exact throw_counts _

theorem localPlace_counts (slot : Slot) : Counts (localPlace slot) := by
  refine get_counts fun m => ?_
  split
  · exact pure_counts _
  · split
    · exact pure_counts _
    · exact throw_counts _
    · exact throw_counts _

theorem execute_counts (i : Instr) : Counts (execute i) := by
  cases i with
  | push cell => exact push_counts cell
  | pop => exact pop_counts.bind fun _ => pure_counts _
  | binary op =>
    exact popValue_counts.bind fun _ => popValue_counts.bind fun _ => pushResult_counts _ _
  | bitwise op =>
    exact popValue_counts.bind fun _ => popValue_counts.bind fun _ => pushResult_counts _ _
  | neg => exact popValue_counts.bind fun _ => pushResult_counts _ _
  | print => exact print_counts _
  | println => exact print_counts _
  | label | setSlot => exact pure_counts _
  | jump name => exact jump_counts name
  | jumpIfZero name =>
    refine (popValue_counts.bind fun _ => pure_counts _).bind fun zero => ?_
    split
    · exact jump_counts name
    · exact pure_counts _
  | enter name => exact enter_counts name
  | leave => exact leave_counts
  | loadGlobal slot => exact loadGlobal_counts slot
  | storeGlobal slot => exact pop_counts.bind fun _ => modify_counts fun _ => rfl
  | loadLocal slot =>
    exact (localPlace_counts slot).bind fun _ => (lift_counts _).bind fun _ =>
      (cellAt_counts _).bind fun _ => push_counts _
  | storeLocal slot =>
    exact (localPlace_counts slot).bind fun _ => pop_counts.bind fun _ =>
      (lift_counts _).bind fun _ => setCellAt_counts _ _
  | halt => exact modify_counts fun _ => rfl
  | other items => exact throw_counts _

theorem step_counts (code : Array Instr) : Counts (step code) := by
  refine get_counts fun m => ?_
  split
  · exact throw_counts _
  · exact Counts.bind (modify_counts fun _ => rfl) fun _ => execute_counts _

/-! ### Runs -/

theorem collectLabels_counts (n : Nat) (code : List Instr) : Counts (collectLabels n code) := by
  induction code generalizing n with
  | nil => exact pure_counts _
  | cons i rest ih =>
    unfold collectLabels
    dsimp only
    split
    · exact Counts.bind (modify_counts fun _ => rfl) fun _ => ih (n + 1)
    · exact (throw_counts _).bind fun _ => ih (n + 1)
    · exact (throw_counts _).bind fun _ => ih (n + 1)
    · exact Counts.bind (modify_counts fun _ => rfl) fun _ => ih (n + 1)
    · exact ih (n + 1)

/-- A start counts none of the cells that are there. -/
theorem start_uncounted {code : List Instr} (started : start code m = .ok () m') :
    m'.uncounted = m.stack.size := by
  rw [start, modify_bind, readLabels, modify_bind] at started
  rw [collectLabels_counts 0 code started]
  exact Int.sub_zero _

/-- A run comes to a state without having failed: before a fetch, or when it has halted. -/
def Comes (code : List Instr) (m m' : Machine) : Prop :=
  ∃ n, run n code m = (.limit, m') ∨ run n code m = (.halted, m')

theorem loop_uncounted {code : Array Instr} {n : Nat} {o : Outcome}
    (looped : loop code n m = (o, m')) (fine : ∀ f, o ≠ .failed f) :
    m'.uncounted = m.uncounted := by
  induction n generalizing m with
  | zero =>
    cases looped
    rfl
  | succ n ih =>
    rw [loop] at looped
    split at looped
    · next m₁ done =>
        have counted := step_counts code done
        split at looped
        · exact (ih looped).trans counted
        · cases looped
          exact counted
    · cases looped
      exact absurd rfl (fine _)

/-- During a run the cells that are not counted are those that it found. -/
theorem Comes.uncounted {code : List Instr} (comes : Comes code m m') :
    m'.uncounted = m.stack.size := by
  obtain ⟨n, comes⟩ := comes
  have fine : ∃ o, run n code m = (o, m') ∧ ∀ f, o ≠ .failed f := by
    rcases comes with limit | halted
    · exact ⟨_, limit, by simp⟩
    · exact ⟨_, halted, by simp⟩
  obtain ⟨o, ran, fine⟩ := fine
  rw [run] at ran
  split at ran
  · next started => exact (loop_uncounted ran fine).trans (start_uncounted started)
  · cases ran
    exact absurd rfl (fine _)

/-- A run of known instructions comes at least to its first fetch. -/
theorem comes_first {code : List Instr} (all : ∀ i ∈ code, known i = true) (m : Machine) :
    ∃ m', Comes code m m' := by
  obtain ⟨m', started⟩ : ∃ m', start code m = .ok () m' := ⟨_, collectLabels_eq 0 all _⟩
  refine ⟨m', 0, .inl ?_⟩
  rw [run, started]
  rfl

/-! ### One program after the other -/

/-- A fresh machine has run programs one after the other, each until it halted. -/
inductive Finished : List (List Instr) → Machine → Prop where
  | none : Finished [] empty
  | more {programs code n m m'} : Finished programs m → run n code m = (.halted, m') →
      Finished (programs ++ [code]) m'

/-- Running programs one after the other, the machine has come to `found` before one of them, and
from there to `m` in its run. -/
def Passes (programs : List (List Instr)) (found m : Machine) : Prop :=
  ∃ before code after, programs = before ++ code :: after ∧ Finished before found ∧
    Comes code found m

/-- However many programs a machine runs, in every state of a run the counted height falls short of
the number of cells by those that the run found. So it is right all along exactly if every program
but the last leaves nothing on the stack. -/
theorem height_right_iff_left_empty {programs : List (List Instr)}
    (all : ∀ code ∈ programs, ∀ i ∈ code, known i = true) :
    (∀ found m, Passes programs found m → m.sp = m.stack.size - found.stack.size) ∧
      ((∀ found m, Passes programs found m → m.sp = m.stack.size) ↔
        ∀ before code after m, programs = before ++ code :: after → Finished before m →
          m.stack = #[]) := by
  have short (found m : Machine) (passes : Passes programs found m) :
      m.sp = m.stack.size - found.stack.size := by
    obtain ⟨_, _, _, _, _, comes⟩ := passes
    have counted := comes.uncounted
    rw [uncounted] at counted
    omega
  refine ⟨short, fun right before code after m parts finished => ?_, fun left found m passes => ?_⟩
  · have here : code ∈ programs := by simp [parts]
    obtain ⟨m', comes⟩ := comes_first (all code here) m
    have passes : Passes programs m m' := ⟨before, code, after, parts, finished, comes⟩
    have same := right m m' passes
    have less := short m m' passes
    exact Array.eq_empty_of_size_eq_zero (by omega)
  · obtain ⟨before, code, after, parts, finished, -⟩ := id passes
    have none : found.stack = #[] := left before code after found parts finished
    simpa [none] using short found m passes

/-- A program that leaves a cell on the stack. -/
def leaving : List Instr := [.push (.value (.bool true)), .halt]

theorem leaving_counted :
    (∀ code ∈ [leaving, leaving], ∀ i ∈ code, known i = true) ∧
      (∀ found m, Passes [leaving, leaving] found m → m.sp = m.stack.size - found.stack.size) ∧
      ∃ found m, Passes [leaving, leaving] found m ∧ m.sp = 1 ∧ m.stack.size = 2 := by
  have all : ∀ code ∈ [leaving, leaving], ∀ i ∈ code, known i = true := by decide
  refine ⟨all, (height_right_iff_left_empty all).1, ?_⟩
  refine ⟨_, _, ⟨[leaving], leaving, [], rfl, .more (n := 2) .none rfl, 2, .inr rfl⟩, rfl, rfl⟩

/-- After a program that leaves a cell on the stack, a program that only halts runs with a count of
zero above one cell. -/
theorem leftover_uncounted :
    ∃ found m, Passes [leaving, [.halt]] found m ∧ m.sp = 0 ∧ m.stack.size = 1 :=
  ⟨_, _, ⟨[leaving], [.halt], [], rfl, .more (n := 2) .none rfl, 1, .inr rfl⟩, rfl, rfl⟩

end ScriptLang.Machine
