import ScriptLang.Proofs.Machine.Operations
import ScriptLang.Proofs.Machine.Points
import ScriptLang.Proofs.Machine.Stepping
import ScriptLang.Proofs.Value.Faults

/-!
A machine that is at a point of a safe set stays in the set.

`Sits` ties a machine to a point: the cells of the running call, the stored globals, and for each
frame a point of the set at which its caller goes on. One step from such a machine leads to such a
machine again, halts it with an empty stack, or fails for what the data are (`Sits.next`). In no
case does it touch a cell below the base of the running call.
-/

namespace ScriptLang.Machine

variable {code : Array Instr} {labels : Labels} {P : Point → Prop} {m : Machine} {b : Nat}
  {p : Point}

/-- A failure that the machine reports itself, or one for what the data are. -/
def Harmless : Failure → Prop
  | .report _ => True
  | .fault f => f.ofData = true
  | _ => False

/-! ### Cells -/

/-- Two stacks have the same cells below a height. -/
def Agree (b : Nat) (s s' : Array Cell) : Prop :=
  ∀ i < b, s'[i]? = s[i]?

theorem Agree.refl (b : Nat) (s : Array Cell) : Agree b s s := fun _ _ => rfl

theorem Agree.trans {s s' s'' : Array Cell} (h : Agree b s s') (h' : Agree b s' s'') :
    Agree b s s'' :=
  fun i lt => (h' i lt).trans (h i lt)

theorem agree_push {s : Array Cell} {c : Cell} (le : b ≤ s.size) : Agree b s (s.push c) := by
  intro i lt
  rw [Array.getElem?_push, if_neg (by omega)]

theorem agree_pop {s : Array Cell} {c : Cell} (le : b ≤ s.size) : Agree b (s.push c) s := by
  intro i lt
  rw [Array.getElem?_push, if_neg (by omega)]

theorem agree_set {s : Array Cell} {c : Cell} {i : Nat} (le : b ≤ i) :
    Agree b s (s.setIfInBounds i c) := by
  intro j lt
  rw [Array.getElem?_setIfInBounds, if_neg (by omega)]

theorem size_take {s : Array Cell} (le : b ≤ s.size) : (s.take b).size = b := by
  simp
  omega

theorem toList_take (s : Array Cell) (b : Nat) : (s.take b).toList = s.toList.take b := by
  simp

theorem agree_take (b : Nat) (s : Array Cell) : Agree b s (s.take b) := by
  intro i lt
  rw [← Array.getElem?_toList, toList_take, List.getElem?_take_of_lt lt, Array.getElem?_toList]

/-- All cells hold values. -/
def Values (s : Array Cell) : Prop := ∀ c ∈ s, ∃ v, c = .value v

theorem Values.push {s : Array Cell} (h : Values s) (v : Value) : Values (s.push (.value v)) := by
  intro c mem
  rcases Array.mem_push.mp mem with mem | rfl
  · exact h c mem
  · exact ⟨v, rfl⟩

theorem Values.take {s : Array Cell} (h : Values s) (b : Nat) : Values (s.take b) := by
  intro c mem
  rw [← Array.mem_toList_iff, toList_take] at mem
  exact h c (Array.mem_toList_iff.mp (List.mem_of_mem_take mem))

/-- The topmost of some values. -/
theorem Values.top {s : Array Cell} {n : Nat} (h : Values s) (size : s.size = b + (n + 1)) :
    ∃ t v, s = t.push (.value v) ∧ Values t ∧ t.size = b + n := by
  obtain ⟨t, c, rfl⟩ := Array.exists_push_of_size_eq_add_one size
  obtain ⟨v, rfl⟩ := h c Array.mem_push_self
  exact ⟨t, v, rfl, fun c mem => h c (Array.mem_push_of_mem _ mem), by simp at size; omega⟩

/-! ### The invariant -/

/-- A global slot holds a value. -/
def Stored (m : Machine) (i : Nat) : Prop := ∃ v, m.global? (.index i) = some (.value v)

/-- Running calls, each of which goes back to a point of `P`, and the base of the innermost. -/
inductive Calls (P : Point → Prop) (stored : Nat → Prop) : List Frame → Nat → Prop where
  | none : Calls P stored [] 0
  | more {name back b b' g rest} : Calls P stored rest b' → b' ≤ b → (∀ i < g, stored i) →
      P ⟨back, b - b' + 1, g, !rest.isEmpty, Option.none⟩ →
      Calls P stored (⟨name, back, .int b⟩ :: rest) b

theorem Calls.mono {stored stored' : Nat → Prop} {frames : List Frame} (h : Calls P stored frames b)
    (sub : ∀ i, stored i → stored' i) : Calls P stored' frames b := by
  induction h with
  | none => exact .none
  | more _ le globals next ih => exact .more ih le (fun i lt => sub i (globals i lt)) next

theorem Calls.based {stored : Nat → Prop} (h : Calls P stored m.frames b) : m.Based b := by
  unfold Based
  cases frames : m.frames with
  | nil =>
    rw [frames] at h
    cases h
    rfl
  | cons f rest =>
    rw [frames] at h
    cases h
    rfl

/-- A machine is at a point, inside calls of which the innermost has the base `b`. -/
structure Sits (labels : Labels) (P : Point → Prop) (m : Machine) (b : Nat) (p : Point) :
    Prop where
  level : m.Level
  labels : m.labels = labels
  indexed : Indexed m.globals
  values : Values m.stack
  calls : Calls P m.Stored m.frames b
  height : m.stack.size = b + p.height
  pc : m.pc = p.pc
  stored : ∀ i < p.globals, m.Stored i
  inCall : p.inCall = !m.frames.isEmpty
  count : ∀ n, p.count = some n → m.stack.back? = some (.value (.number (.int n)))

/-- The same machine elsewhere, with another stack. -/
theorem Sits.move (h : Sits labels P m b p) {s : Array Cell} {pc height : Nat} {count : Option Nat}
    (values : Values s) (size : s.size = b + height)
    (counted : ∀ n, count = some n → s.back? = some (.value (.number (.int n)))) :
    Sits labels P { m.withStack s with pc } b ⟨pc, height, p.globals, p.inCall, count⟩ where
  level := rfl
  labels := h.labels
  indexed := h.indexed
  values := values
  calls := h.calls
  height := size
  pc := rfl
  stored := h.stored
  inCall := h.inCall
  count := counted

/-- What one step from a machine inside a call with base `b` may lead to. -/
inductive Next (labels : Labels) (P : Point → Prop) (m : Machine) (b : Nat) :
    EStateM.Result Failure Machine Unit → Prop where
  | on {m' : Machine} {b' p'} : P p' → Sits labels P m' b' p' → m'.running = m.running →
      Agree b m.stack m'.stack → Next labels P m b (.ok () m')
  | halted {m' : Machine} : m'.running = false → m'.Level → m'.stack = #[] → m'.frames = [] →
      Agree b m.stack m'.stack → Next labels P m b (.ok () m')
  | failed {f} {m' : Machine} : Harmless f → m'.Level → m'.frames = m.frames →
      b ≤ m'.stack.size → Agree b m.stack m'.stack → Next labels P m b (.error f m')

/-! ### One step -/

theorem no_count {s : Array Cell} :
    ∀ n, (none : Option Nat) = some n → s.back? = some (.value (.number (.int n))) := by
  rintro n ⟨⟩

theorem le_of_size {s : Array Cell} {n : Nat} (size : s.size = b + n) : b ≤ s.size := by
  omega

/-- An operation on the topmost values that leaves the cells `s` below its result. -/
theorem Sits.next_operation (h : Sits labels P m b p) {s : Array Cell} {n : Nat} {message : String}
    {r : Except OperationError Value} (values : Values s) (size : s.size = b + n)
    (agree : Agree b m.stack s) (mild : MildOp r)
    (next : P ⟨m.pc + 1, n + 1, p.globals, p.inCall, none⟩) :
    Next labels P m b (afterOperation m.fetched s message r) := by
  match r with
  | .ok v =>
    have size' : (s.push (.value v)).size = b + (n + 1) := by
      rw [Array.size_push, size, Nat.add_assoc]
    exact .on next (h.move (values.push v) size' no_count) rfl
      (agree.trans (agree_push (by omega)))
  | .error .tags => exact .failed trivial rfl rfl (le_of_size size) agree
  | .error (.fault f) => exact .failed (mild f rfl) rfl rfl (le_of_size size) agree

/-- Another place, with the same stack. -/
theorem Sits.next_place (h : Sits labels P m b p) {pc : Nat}
    (next : P ⟨pc, p.height, p.globals, p.inCall, none⟩) :
    Next labels P m b (.ok () { m with pc }) := by
  have moved : Sits labels P { m.withStack m.stack with pc } b _ :=
    h.move h.values h.height no_count
  rw [withStack_self h.level] at moved
  exact .on next moved rfl (.refl _ _)

/-- One cell more. -/
theorem Sits.next_push (h : Sits labels P m b p) {v : Value} {count : Option Nat}
    (counted : ∀ n, count = some n → v = .number (.int n))
    (next : P ⟨m.pc + 1, p.height + 1, p.globals, p.inCall, count⟩) :
    Next labels P m b (.ok () (m.fetched.withStack (m.stack.push (.value v)))) := by
  have size := h.height
  have size' : (m.stack.push (.value v)).size = b + (p.height + 1) := by
    rw [Array.size_push, size, Nat.add_assoc]
  have counted' : ∀ n, count = some n →
      (m.stack.push (.value v)).back? = some (.value (.number (.int n))) := by
    intro n eq
    rw [Array.back?_push, counted n eq]
  exact .on next (h.move (h.values.push v) size' counted') rfl (agree_push (by omega))

/-- One cell less. -/
theorem Sits.next_pop (h : Sits labels P m b p) {s : Array Cell} {c : Cell} {pc n : Nat}
    (top : m.stack = s.push c) (values : Values s) (size : s.size = b + n)
    (next : P ⟨pc, n, p.globals, p.inCall, none⟩) :
    Next labels P m b (.ok () { m.withStack s with pc }) := by
  refine .on next (h.move values size no_count) rfl ?_
  rw [top]
  exact agree_pop (by omega)

theorem Sits.next_enter {pc n g j g' a : Nat} {k : Bool} {f : Label}
    (h : Sits labels P m b ⟨pc, n + j + 1, g, k, some j⟩) (found : labels.lookup? f = some a)
    (le : g' ≤ g) (entry : P ⟨a, j, g', true, none⟩) (back : P ⟨pc + 1, n + 1, g, k, none⟩) :
    Next labels P m b (execute (.enter f) m.fetched) := by
  obtain ⟨s, v, top, values, size⟩ := h.values.top h.height
  obtain rfl : v = .number (.int j) := by
    have counted := h.count j rfl
    rw [top, Array.back?_push] at counted
    simpa using counted
  have sub : s.size - j = b + n := by omega
  rw [execute_enter (m := m.fetched) top h.level (by omega) (h.labels ▸ found), sub]
  refine Next.on entry (?_ : Sits labels P _ (b + n) _) rfl ?_
  · refine ⟨rfl, h.labels, h.indexed, values, ?_, ?_, rfl, ?_, rfl, no_count⟩
    · refine .more h.calls (Nat.le_add_right _ _) h.stored ?_
      change P ⟨m.pc + 1, b + n - b + 1, g, !m.frames.isEmpty, none⟩
      rw [Nat.add_sub_cancel_left, ← h.inCall, h.pc]
      exact back
    · exact size.trans (Nat.add_assoc _ _ _).symm
    · exact fun i lt => h.stored i (Nat.lt_of_lt_of_le lt le)
  · rw [top]
    exact agree_pop (by omega)

theorem Sits.next_leave {pc n g : Nat} {count : Option Nat}
    (h : Sits labels P m b ⟨pc, n + 1, g, true, count⟩) :
    Next labels P m b (execute .leave m.fetched) := by
  obtain ⟨s, v, top, values, size⟩ := h.values.top h.height
  obtain ⟨f, rest, frames⟩ : ∃ f rest, m.frames = f :: rest := by
    cases frames : m.frames with
    | nil =>
      have call := h.inCall
      simp [frames] at call
    | cons f rest => exact ⟨f, rest, rfl⟩
  have calls := h.calls
  rw [frames] at calls
  cases calls with
  | @more name back _ b' g' _ outer le globals next =>
    have size' : (s.take b).size = b := size_take (by omega)
    rw [execute_leave_take (m := m.fetched) frames rfl top (by omega) h.level]
    have below : Agree b m.stack ((s.take b).push (.value v)) := by
      rw [top]
      exact ((agree_pop (by omega)).trans (agree_take b s)).trans (agree_push (by omega))
    refine .on next (?_ : Sits labels P _ b' _) rfl below
    refine ⟨rfl, h.labels, h.indexed, (values.take b).push v, outer, ?_, rfl, globals, rfl,
      no_count⟩
    change ((s.take b).push (.value v)).size = b' + (b - b' + 1)
    rw [Array.size_push]
    omega

theorem Sits.next_store {pc n g i : Nat} {k : Bool} {count : Option Nat} {g' : Nat}
    (h : Sits labels P m b ⟨pc, n + 1, g, k, count⟩) (le : ∀ j < g', j < g ∨ j = i)
    (next : P ⟨pc + 1, n, g', k, none⟩) :
    Next labels P m b (execute (.storeGlobal (.index i)) m.fetched) := by
  obtain ⟨s, v, top, values, size⟩ := h.values.top h.height
  rw [execute_storeGlobal (m := m.fetched) top h.level]
  have global := global?_put h.indexed i
  have kept : ∀ j, m.Stored j ∨ j = i →
      Stored { m with globals := putGlobal (.index i) (.value v) m.globals } j := by
    intro j old
    rw [Stored, global]
    split
    · exact ⟨v, rfl⟩
    · rename_i ne
      exact old.resolve_right (Ne.symm ne)
  refine .on next (?_ : Sits labels P _ b _) rfl ?_
  · refine ⟨rfl, h.labels, h.indexed.put i _, values, ?_, size, ?_, ?_, h.inCall, no_count⟩
    · exact h.calls.mono fun j old => kept j (.inl old)
    · change m.pc + 1 = pc + 1
      rw [h.pc]
    · exact fun j lt => kept j ((le j lt).imp (h.stored j) id)
  · rw [top]
    exact agree_pop (by omega)

theorem Sits.next_print (h : Sits labels P m b p) {s : Array Cell} {v : Value} {n : Nat}
    {ending : String} (top : m.stack = s.push (.value v)) (values : Values s)
    (size : s.size = b + n) (next : P ⟨m.pc + 1, n, p.globals, p.inCall, none⟩) :
    Next labels P m b (print ending m.fetched) := by
  have agree : Agree b m.stack s := by
    rw [top]
    exact agree_pop (by omega)
  rw [print_eq (m := m.fetched) top h.level]
  cases printed : Value.printed v.datum with
  | ok text =>
    have moved : Sits labels P { m.withStack s with pc := m.pc + 1 } b _ :=
      h.move values size no_count
    exact .on next ⟨rfl, moved.labels, moved.indexed, moved.values, moved.calls, size, rfl,
      moved.stored, moved.inCall, no_count⟩ rfl agree
  | error f =>
    exact .failed (Value.printed_mild v.datum f printed) rfl rfl (le_of_size size) agree

theorem Sits.fetch (h : Sits labels P m b p) {i : Instr} (fetch : code[p.pc]? = some i) :
    step code m = execute i m.fetched :=
  step_eq (h.pc.symm ▸ fetch)

/-- A step from a point of a set in which every point is followed by points of the set. -/
theorem Sits.next (h : Sits labels P m b p) (follows : Follows code labels P p) :
    Next labels P m b (step code m) := by
  have place : ∀ {n g k c}, P ⟨p.pc + 1, n, g, k, c⟩ → P ⟨m.pc + 1, n, g, k, c⟩ := by
    intro n g k c mem
    rw [h.pc]
    exact mem
  have height := h.height
  have level := h.level.fetched
  cases follows with
  | push fetch next =>
    rw [h.fetch fetch, execute, push_eq level]
    exact h.next_push (by rintro n ⟨⟩) (place next)
  | pushCount fetch next =>
    rw [h.fetch fetch, execute, push_eq level]
    exact h.next_push (by rintro n ⟨⟩; rfl) (place next)
  | pop fetch next =>
    obtain ⟨s, v, top, values, size⟩ := h.values.top height
    rw [h.fetch fetch, execute_pop (m := m.fetched) top level]
    exact h.next_pop top values size (place next)
  | binary fetch next =>
    obtain ⟨s, w, top, values, size⟩ := h.values.top height
    obtain ⟨t, v, rfl, values, size⟩ := values.top size
    rw [h.fetch fetch, execute_binary (m := m.fetched) top level, result_eq_apply]
    refine h.next_operation values size ?_ (BinaryOp.apply_mild _ v w) (place next)
    rw [top]
    exact (agree_pop (by simp; omega)).trans (agree_pop (by omega))
  | bitwise fetch next =>
    obtain ⟨s, w, top, values, size⟩ := h.values.top height
    obtain ⟨t, v, rfl, values, size⟩ := values.top size
    rw [h.fetch fetch, execute_bitwise (m := m.fetched) top level]
    refine h.next_operation values size ?_ (Value.bitwise_mild _ v w) (place next)
    rw [top]
    exact (agree_pop (by simp; omega)).trans (agree_pop (by omega))
  | neg fetch next =>
    obtain ⟨s, v, top, values, size⟩ := h.values.top height
    rw [h.fetch fetch, execute_neg (m := m.fetched) top level, negative_eq_neg]
    refine h.next_operation values size ?_ (Value.neg_mild v) (place next)
    rw [top]
    exact agree_pop (by omega)
  | print fetch next =>
    obtain ⟨s, v, top, values, size⟩ := h.values.top height
    rw [h.fetch fetch]
    exact h.next_print top values size (place next)
  | println fetch next =>
    obtain ⟨s, v, top, values, size⟩ := h.values.top height
    rw [h.fetch fetch]
    exact h.next_print top values size (place next)
  | label fetch next =>
    rw [h.fetch fetch]
    exact h.next_place (place next)
  | setSlot fetch next =>
    rw [h.fetch fetch]
    exact h.next_place (place next)
  | jump fetch found next =>
    rw [h.fetch fetch, execute, jump_eq (m := m.fetched) (h.labels ▸ found)]
    exact h.next_place next
  | jumpIfZero fetch found next other =>
    obtain ⟨s, v, top, values, size⟩ := h.values.top height
    rw [h.fetch fetch, execute_jumpIfZero (m := m.fetched) top level (h.labels ▸ found)]
    cases v.datum.same (.int 0) with
    | true => exact h.next_pop top values size other
    | false => exact h.next_pop top values size (place next)
  | enter fetch found le entry next =>
    rw [h.fetch fetch]
    exact h.next_enter found le entry next
  | leave fetch =>
    rw [h.fetch fetch]
    exact h.next_leave
  | loadGlobal fetch lt next =>
    obtain ⟨v, known⟩ := h.stored _ lt
    rw [h.fetch fetch, execute_loadGlobal (m := m.fetched) known level]
    exact h.next_push (by rintro n ⟨⟩) (place next)
  | storeGlobal fetch lt next =>
    rw [h.fetch fetch]
    exact h.next_store (fun j lt => .inl lt) next
  | newGlobal fetch next =>
    rw [h.fetch fetch]
    exact h.next_store (fun j lt => by omega) next
  | @loadLocal _ n _ _ _ i fetch lt next =>
    have height : m.stack.size = b + n := height
    have inside : i + b < m.stack.size := by omega
    obtain ⟨v, value⟩ := h.values m.stack[i + b] (Array.getElem_mem inside)
    have cell : m.stack[i + b]? = some (.value v) := by
      rw [Array.getElem?_eq_getElem inside, value]
    rw [h.fetch fetch, execute_loadLocal (m := m.fetched) h.calls.based cell level]
    exact h.next_push (by rintro n ⟨⟩) (place next)
  | @storeLocal _ n _ _ _ i fetch lt next =>
    obtain ⟨s, v, top, values, size⟩ := h.values.top height
    rw [h.fetch fetch, execute_storeLocal (m := m.fetched) h.calls.based top (by omega) level]
    have size' : (s.setIfInBounds (i + b) (.value v)).size = b + n := by simpa using size
    have values' : Values (s.setIfInBounds (i + b) (.value v)) := by
      intro c mem
      rcases Array.mem_or_eq_of_mem_setIfInBounds mem with mem | rfl
      · exact values c mem
      · exact ⟨v, rfl⟩
    refine .on (place next) (h.move values' size' no_count) rfl ?_
    rw [top]
    exact (agree_pop (by omega)).trans (agree_set (by omega))
  | halt fetch =>
    have none : m.frames = [] := by
      have call := h.inCall
      simpa using call
    have base : b = 0 := by
      have calls := h.calls
      rw [none] at calls
      cases calls
      rfl
    have empty : m.stack = #[] := Array.eq_empty_of_size_eq_zero (h.height.trans base)
    rw [h.fetch fetch]
    exact .halted rfl level empty none (.refl _ _)

end ScriptLang.Machine
