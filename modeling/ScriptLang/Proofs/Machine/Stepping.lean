import ScriptLang.Machine.Run
import ScriptLang.Proofs.Sequence

/-!
What each instruction does to a machine whose counted height is right.

There is one equation for each instruction, for a stack whose topmost cells are known. The equations
say what the machine is after the instruction, also after a failed one.
-/

namespace ScriptLang.Machine

variable {m : Machine} {s : Array Cell} {code : Array Instr}

/-! ### The stack -/

/-- The counted height is the number of cells. -/
def Level (m : Machine) : Prop := m.sp = m.stack.size

/-- The machine with another stack, counted rightly. -/
def withStack (m : Machine) (s : Array Cell) : Machine := { m with stack := s, sp := s.size }

theorem withStack_level (m : Machine) (s : Array Cell) : (m.withStack s).Level := rfl

theorem withStack_self (level : m.Level) : m.withStack m.stack = m := by
  rw [withStack, ← level]

theorem push_eq (level : m.Level) (c : Cell) :
    push c m = .ok () (m.withStack (m.stack.push c)) := by
  have size : m.sp + 1 = ((m.stack.push c).size : Int) := by
    rw [level, Array.size_push]
    rfl
  rw [withStack, ← size]
  rfl

theorem pop_eq {c : Cell} (top : m.stack = s.push c) (level : m.Level) :
    pop m = .ok c (m.withStack s) := by
  unfold pop
  rw [top, Array.back?_push, Array.pop_push, level, top, Array.size_push, withStack]
  simp

theorem popValue_eq {v : Value} (top : m.stack = s.push (.value v)) (level : m.Level) :
    popValue m = .ok v (m.withStack s) := by
  rw [popValue, bind_of_ok (pop_eq top level)]
  rfl

theorem popValue_withStack (m : Machine) (s : Array Cell) (v : Value) :
    popValue (m.withStack (s.push (.value v))) = .ok v (m.withStack s) :=
  popValue_eq rfl (withStack_level m _)

/-- The machine after a fetch. -/
def fetched (m : Machine) : Machine := { m with pc := m.pc + 1 }

theorem Level.fetched (level : m.Level) : m.fetched.Level := level

theorem step_eq {i : Instr} (fetch : code[m.pc]? = some i) : step code m = execute i m.fetched := by
  rw [step, get_bind, fetch]
  rfl

/-! ### Operations on values -/

/-- How an operation on the topmost values ends. -/
def afterOperation (m : Machine) (s : Array Cell) (message : String) :
    Except OperationError Value → EStateM.Result Failure Machine Unit
  | .ok v => .ok () (m.withStack (s.push (.value v)))
  | .error .tags => .error (.report ⟨.address (m.pc - 1), message⟩) (m.withStack s)
  | .error (.fault f) => .error (.fault f) (m.withStack s)

theorem pushResult_eq (message : String) (r : Except OperationError Value) :
    pushResult message r (m.withStack s) = afterOperation m s message r := by
  match r with
  | .ok v => exact push_eq (withStack_level m s) _
  | .error .tags => rfl
  | .error (.fault f) => rfl

theorem execute_binary {op : BinaryOp} {a b : Value}
    (top : m.stack = (s.push (.value a)).push (.value b)) (level : m.Level) :
    execute (.binary op) m =
      afterOperation m s (betweenText op.mnemonic a b (messageEnding op)) (result op a b) := by
  rw [execute, binary, bind_of_ok (popValue_eq top level),
    bind_of_ok (popValue_withStack m s a)]
  exact pushResult_eq _ _

theorem execute_bitwise {op : Bitwise} {a b : Value}
    (top : m.stack = (s.push (.value a)).push (.value b)) (level : m.Level) :
    execute (.bitwise op) m =
      afterOperation m s (betweenText op.mnemonic a b "") (a.bitwise op b) := by
  rw [execute, bitwise, bind_of_ok (popValue_eq top level),
    bind_of_ok (popValue_withStack m s a)]
  exact pushResult_eq _ _

theorem execute_neg {v : Value} (top : m.stack = s.push (.value v)) (level : m.Level) :
    execute .neg m = afterOperation m s ("Error on NEG between " ++ v.tag.plain) (negative v) := by
  rw [execute, negate, bind_of_ok (popValue_eq top level)]
  exact pushResult_eq _ _

theorem print_eq {v : Value} {ending : String} (top : m.stack = s.push (.value v))
    (level : m.Level) :
    print ending m =
      match Value.printed v.datum with
      | .ok text => .ok () { m.withStack s with output := m.output ++ (text ++ ending) }
      | .error f => .error (.fault f) (m.withStack s) := by
  rw [print, bind_of_ok (popValue_eq top level)]
  cases Value.printed v.datum with
  | ok text => rfl
  | error f => rfl

/-! ### Jumps -/

theorem jump_eq {name : Label} {n : Nat} (known : m.labels.lookup? name = some n) :
    jump name m = .ok () { m with pc := n } := by
  have found : target name m = .ok n m := by
    rw [target, get_bind, known]
    rfl
  rw [jump, bind_of_ok found]
  rfl

theorem execute_jumpIfZero {name : Label} {v : Value} {n : Nat}
    (top : m.stack = s.push (.value v)) (level : m.Level)
    (known : m.labels.lookup? name = some n) :
    execute (.jumpIfZero name) m =
      .ok () { m.withStack s with pc := if v.datum.same (.int 0) then n else m.pc } := by
  have tested : popsZero m = .ok (v.datum.same (.int 0)) (m.withStack s) := by
    rw [popsZero, bind_of_ok (popValue_eq top level)]
    rfl
  rw [execute, bind_of_ok tested]
  cases v.datum.same (.int 0) with
  | true => exact jump_eq known
  | false => rfl

/-! ### Calls -/

/-- The base of the running call, or the bottom of the stack outside of calls. -/
def Based (m : Machine) (b : Nat) : Prop :=
  match m.frames with
  | [] => b = 0
  | f :: _ => f.base = .int b

/-- The machine inside a new call whose cells begin at `b`. -/
def entered (m : Machine) (s : Array Cell) (name : Label) (b n : Nat) : Machine :=
  { m.withStack s with frames := ⟨name, m.pc, .int b⟩ :: m.frames, pc := n }

theorem execute_enter {name : Label} {k n : Nat}
    (top : m.stack = s.push (.value (.number (.int k)))) (level : m.Level) (enough : k ≤ s.size)
    (known : m.labels.lookup? name = some n) :
    execute (.enter name) m = .ok () (m.entered s name (s.size - k) n) := by
  have base : lift ((Datum.int (m.withStack s).sp).sub (Value.number (.int k)).datum)
      (m.withStack s) = .ok (.int (s.size - k : Nat)) (m.withStack s) := by
    change EStateM.Result.ok (Datum.int ((s.size : Int) - k)) _ = _
    rw [Int.ofNat_sub enough]
  rw [execute, enter, bind_of_ok (popValue_eq top level),
    get_bind, bind_of_ok base, modify_bind]
  exact jump_eq known

theorem ordered_gt (a b : Int) : (Datum.int a).ordered .gt (.int b) = .ok (decide (b < a)) := by
  have order : (compare a b == Ordering.gt) = decide (b < a) := by
    rw [Bool.eq_iff_iff, decide_eq_true_eq, beq_iff_eq, Int.compare_eq_gt]
  simp [Datum.ordered, Datum.num?, Num.order?, Comparison.holds, order]

theorem aboveBase_eq {f : Frame} {rest : List Frame} {b : Nat} (frames : m.frames = f :: rest)
    (base : f.base = .int b) : aboveBase m = .ok (decide ((b : Int) < m.sp)) m := by
  rw [aboveBase, get_bind, frames]
  simp only [base, ordered_gt]
  rfl

/-- Unwinding leaves the cells below the base. -/
theorem unwind_eq {f : Frame} {rest : List Frame} {t : List Cell} {n : Nat}
    (frames : m.frames = f :: rest) (base : f.base = .int s.size)
    (cells : m.stack = s ++ t.toArray) (level : m.Level) (enough : t.length < n) :
    unwind n m = .ok () (m.withStack s) := by
  induction n generalizing m t with
  | zero => omega
  | succ n ih =>
    rw [unwind, bind_of_ok (aboveBase_eq frames base)]
    rcases List.eq_nil_or_concat t with rfl | ⟨t, c, rfl⟩
    · have size : m.sp = s.size := by
        rw [level, cells]
        simp
      have same : m.stack = s := by simpa using cells
      rw [size, decide_eq_false (by omega), ← same, withStack_self level]
      rfl
    · have size : (s.size : Int) < m.sp := by
        rw [level, cells]
        simp only [Array.size_append, List.size_toArray, List.length_concat]
        omega
      have top : m.stack = (s ++ t.toArray).push c := by simp [cells]
      rw [decide_eq_true size, if_pos rfl, bind_of_ok (pop_eq top level)]
      exact ih frames rfl (withStack_level m _) (by simp at enough; omega)

theorem cellAt_eq {i : Nat} {c : Cell} (cell : m.stack[i]? = some c) : cellAt i m = .ok c m := by
  have lt : i < m.stack.size := by
    rw [Array.getElem?_eq_some_iff] at cell
    exact cell.1
  have position : position? m.stack.size i = some i := by simp [position?, lt]
  rw [cellAt, get_bind, position]
  simp only [cell]
  rfl

/-- The machine after a call that has the result `c`. -/
def left (m : Machine) (s : Array Cell) (c : Cell) (f : Frame) (rest : List Frame) : Machine :=
  { m.withStack (s.push c) with frames := rest, pc := f.back }

theorem execute_leave {f : Frame} {rest : List Frame} {t : List Cell} {c : Cell}
    (frames : m.frames = f :: rest) (base : f.base = .int s.size)
    (cells : m.stack = (s ++ t.toArray).push c) (level : m.Level) :
    execute .leave m = .ok () (m.left s c f rest) := by
  have height : m.sp - 1 = ((s.size + t.length : Nat) : Int) := by
    rw [level, cells]
    simp only [Array.size_push, Array.size_append, List.size_toArray]
    omega
  have result : cellAt (m.sp - 1) m = .ok c m := by
    rw [height]
    exact cellAt_eq (by simp [cells])
  have enough : (t ++ [c]).length < m.stack.size + 1 := by
    simp only [cells, Array.size_push, Array.size_append, List.size_toArray, List.length_append,
      List.length_singleton]
    omega
  have unwound : unwind (m.stack.size + 1) m = .ok () (m.withStack s) :=
    unwind_eq frames base (by simp [cells]) level enough
  rw [execute, leave, get_bind, bind_of_ok result,
    bind_of_ok unwound, bind_of_ok (push_eq (withStack_level m s) c)]
  change EStateM.Result.ok () (match m.frames with | [] => _ | f :: rest => _) = _
  rw [frames]
  rfl

/-- A return that finds `b` cells below those of the call. -/
theorem execute_leave_take {f : Frame} {rest : List Frame} {c : Cell} {b : Nat}
    (frames : m.frames = f :: rest) (base : f.base = .int b) (top : m.stack = s.push c)
    (le : b ≤ s.size) (level : m.Level) :
    execute .leave m = .ok () (m.left (s.take b) c f rest) := by
  have split : s = s.take b ++ (s.toList.drop b).toArray := by
    apply Array.toList_inj.mp
    simp
  have size : (s.take b).size = b := by
    simp
    omega
  have cells : m.stack = (s.take b ++ (s.toList.drop b).toArray).push c := by
    rw [← split]
    exact top
  exact execute_leave frames (by rw [size, base]) cells level

/-! ### Variables -/

theorem localPlace_eq {b i : Nat} (based : m.Based b) :
    localPlace (.index i) m = .ok (.int (i + b : Nat)) m := by
  rw [localPlace, get_bind]
  unfold Based at based
  cases frames : m.frames with
  | nil =>
    rw [frames] at based
    subst based
    rfl
  | cons f rest =>
    rw [frames] at based
    simp only at based
    simp only [based]
    rfl

theorem execute_loadLocal {b i : Nat} {c : Cell} (based : m.Based b)
    (cell : m.stack[i + b]? = some c) (level : m.Level) :
    execute (.loadLocal (.index i)) m = .ok () (m.withStack (m.stack.push c)) := by
  rw [execute, loadLocal, bind_of_ok (localPlace_eq based),
    bind_of_ok (show lift (indexOf _) m = .ok _ m from rfl), bind_of_ok (cellAt_eq cell)]
  exact push_eq level c

theorem execute_storeLocal {b i : Nat} {c : Cell} (based : m.Based b)
    (top : m.stack = s.push c) (lt : i + b < s.size) (level : m.Level) :
    execute (.storeLocal (.index i)) m = .ok () (m.withStack (s.setIfInBounds (i + b) c)) := by
  have position : position? (m.withStack s).stack.size ((i + b : Nat) : Int) = some (i + b) := by
    change position? s.size _ = _
    simp only [position?, Int.natCast_nonneg, if_true, Int.ofNat_lt, lt, Int.toNat_natCast]
  rw [execute, storeLocal, bind_of_ok (localPlace_eq based), bind_of_ok (pop_eq top level),
    bind_of_ok (show lift (indexOf _) (m.withStack s) = .ok _ _ from rfl), setCellAt,
    get_bind, position]
  change EStateM.Result.ok () _ = _
  simp [withStack]

theorem execute_pop {c : Cell} (top : m.stack = s.push c) (level : m.Level) :
    execute .pop m = .ok () (m.withStack s) := by
  rw [execute, bind_of_ok (pop_eq top level)]
  rfl

/-- All globals are in numbered slots. -/
def Indexed (globals : List (Slot × Cell)) : Prop :=
  ∀ e ∈ globals, ∃ k : Nat, e.1 = .index k

theorem same_index (i j : Nat) : (Slot.index i).same (.index j) = decide (i = j) := by
  simp only [Slot.same, Slot.toDatum, Datum.same, Datum.num?, Num.same]
  rw [Bool.eq_iff_iff, beq_iff_eq, decide_eq_true_eq]
  omega

theorem Indexed.put {globals : List (Slot × Cell)} (h : Indexed globals) (i : Nat) (c : Cell) :
    Indexed (putGlobal (.index i) c globals) := by
  induction globals with
  | nil =>
    intro e mem
    rw [putGlobal, List.mem_singleton] at mem
    exact ⟨i, by rw [mem]⟩
  | cons entry rest ih =>
    obtain ⟨⟨k, slot⟩, rest'⟩ := List.forall_mem_cons.mp h
    rw [putGlobal]
    split
    · exact List.forall_mem_cons.mpr ⟨⟨k, slot⟩, rest'⟩
    · exact List.forall_mem_cons.mpr ⟨⟨k, slot⟩, ih rest'⟩

/-- A global after a store: the one that was stored is new, all others are as before. -/
theorem global?_put (indexed : Indexed m.globals) (i j : Nat) (c : Cell) :
    global? (.index j) { m with globals := putGlobal (.index i) c m.globals } =
      if i = j then some c else m.global? (.index j) := by
  simp only [global?]
  generalize m.globals = globals at indexed
  induction globals with
  | nil =>
    rw [putGlobal, List.find?_cons, same_index]
    by_cases same : i = j <;> simp [same]
  | cons entry rest ih =>
    obtain ⟨⟨k, slot⟩, rest'⟩ := List.forall_mem_cons.mp indexed
    obtain ⟨slot', old⟩ := entry
    simp only at slot
    subst slot
    rw [putGlobal, same_index]
    by_cases here : k = i
    · subst here
      rw [decide_eq_true rfl, if_pos rfl, List.find?_cons, List.find?_cons, same_index]
      by_cases same : k = j <;> simp [same]
    · rw [decide_eq_false here, if_neg Bool.false_ne_true, List.find?_cons, List.find?_cons,
        same_index]
      by_cases there : k = j
      · subst there
        simp [Ne.symm here]
      · simpa [there] using ih rest'

theorem execute_loadGlobal {slot : Slot} {c : Cell} (known : m.global? slot = some c)
    (level : m.Level) :
    execute (.loadGlobal slot) m = .ok () (m.withStack (m.stack.push c)) := by
  rw [execute, loadGlobal, get_bind, known]
  exact push_eq level c

theorem execute_storeGlobal {slot : Slot} {c : Cell} (top : m.stack = s.push c) (level : m.Level) :
    execute (.storeGlobal slot) m =
      .ok () { m.withStack s with globals := putGlobal slot c m.globals } := by
  rw [execute, storeGlobal, bind_of_ok (pop_eq top level)]
  rfl

end ScriptLang.Machine
