import ScriptLang.Proofs.Machine.Moves
import ScriptLang.Proofs.Machine.Orderly
import ScriptLang.Proofs.Machine.Points

/-!
Spots of a program, and a call that is watched while it runs.

A spot says where the machine is and what is known of the running call there: which function it
runs, how many of its cells the code leaves alone, and how many there are above them. Unlike a
point, a spot does not promise that an instruction succeeds. `Goes P p` says that the instruction at
`p`, if it succeeds, leads into `P` only. While one call is watched, the machine stays at spots of
such a set, and the cells that the call leaves alone change only by its own stores (`Stands.next`).
-/

namespace ScriptLang.Machine

/-! ### Spots -/

/-- A place in a program, and what is known of the running call there. -/
structure Spot where
  pc : Nat
  /-- The number of cells of the call that are left alone. -/
  floor : Nat
  /-- The number of cells above these. -/
  above : Nat
  /-- The first instruction of the function that is called; zero outside of functions. -/
  owner : Nat
  /-- The number on top of the stack, if it counts arguments. -/
  count : Option Nat

/-- How many cells an instruction takes from the stack and how many it puts there, if it is one
after which the machine goes on with the next. -/
def effect? : Instr → Option (Nat × Nat)
  | .push (.value _) => some (0, 1)
  | .pop => some (1, 0)
  | .binary _ | .bitwise _ => some (2, 1)
  | .neg => some (1, 1)
  | .print | .println => some (1, 0)
  | .label _ | .setSlot _ => some (0, 0)
  | .loadGlobal _ | .loadLocal (.index (.ofNat _)) => some (0, 1)
  | .storeGlobal _ | .storeLocal (.index (.ofNat _)) => some (1, 0)
  | _ => none

variable {code : Array Instr} {labels : Labels} {P P' : Spot → Prop} {p : Spot}

/-- Where the instruction at a spot leads if it succeeds. -/
inductive Goes (code : Array Instr) (labels : Labels) (P : Spot → Prop) : Spot → Prop where
  | plain {pc f n o k i t g} : code[pc]? = some i → effect? i = some (t, g) →
      P ⟨pc + 1, f, n + g, o, none⟩ → Goes code labels P ⟨pc, f, n + t, o, k⟩
  | counts {pc f n o k} {j : Nat} : code[pc]? = some (.push (.value (.number (.int j)))) →
      P ⟨pc + 1, f, n + 1, o, some j⟩ → Goes code labels P ⟨pc, f, n, o, k⟩
  /-- From here on no cell is left alone. -/
  | frees {pc f n o k j} : code[pc]? = some .pop → f + n = j + 1 →
      P ⟨pc + 1, 0, j, o, none⟩ → Goes code labels P ⟨pc, f, n, o, k⟩
  | jump {pc f n o k l a} : code[pc]? = some (.jump l) → labels.lookup? l = some a →
      P ⟨a, f, n, o, none⟩ → Goes code labels P ⟨pc, f, n, o, k⟩
  | jumpIfZero {pc f n o k l a} : code[pc]? = some (.jumpIfZero l) → labels.lookup? l = some a →
      P ⟨pc + 1, f, n, o, none⟩ → P ⟨a, f, n, o, none⟩ →
      Goes code labels P ⟨pc, f, n + 1, o, k⟩
  /-- A function begins with its arguments, which it leaves alone. -/
  | enter {pc f n o l a j} : code[pc]? = some (.enter l) → labels.lookup? l = some a →
      P ⟨a, j, 0, a, none⟩ → P ⟨pc + 1, f, n + 1, o, none⟩ →
      Goes code labels P ⟨pc, f, n + j + 1, o, some j⟩
  | leave {pc f n o k} : code[pc]? = some .leave → Goes code labels P ⟨pc, f, n + 1, o, k⟩
  | halt {pc f n o k} : code[pc]? = some .halt → Goes code labels P ⟨pc, f, n, o, k⟩

theorem Goes.mono (h : Goes code labels P p) (sub : ∀ q, P q → P' q) : Goes code labels P' p := by
  cases h with
  | plain fetch effect next => exact .plain fetch effect (sub _ next)
  | counts fetch next => exact .counts fetch (sub _ next)
  | frees fetch size next => exact .frees fetch size (sub _ next)
  | jump fetch found next => exact .jump fetch found (sub _ next)
  | jumpIfZero fetch found next other => exact .jumpIfZero fetch found (sub _ next) (sub _ other)
  | enter fetch found entry next => exact .enter fetch found (sub _ entry) (sub _ next)
  | leave fetch => exact .leave fetch
  | halt fetch => exact .halt fetch

/-! ### Instructions that succeed -/

variable {m m' : Machine} {s : Array Cell} {b n : Nat}

/-- All globals hold values. -/
def ValuesIn (globals : List (Slot × Cell)) : Prop := ∀ e ∈ globals, ∃ v, e.2 = .value v

theorem ValuesIn.put {globals : List (Slot × Cell)} (h : ValuesIn globals) (slot : Slot)
    (v : Value) : ValuesIn (putGlobal slot (.value v) globals) := by
  induction globals with
  | nil =>
    intro e mem
    rw [putGlobal, List.mem_singleton] at mem
    exact ⟨v, by rw [mem]⟩
  | cons entry rest ih =>
    obtain ⟨first, others⟩ := List.forall_mem_cons.mp h
    rw [putGlobal]
    split
    · exact List.forall_mem_cons.mpr ⟨⟨v, rfl⟩, others⟩
    · exact List.forall_mem_cons.mpr ⟨first, ih others⟩

theorem ValuesIn.find (h : ValuesIn m.globals) {slot : Slot} {c : Cell}
    (found : m.global? slot = some c) : ∃ v, c = .value v := by
  obtain ⟨e, at', rfl⟩ := Option.map_eq_some_iff.mp found
  exact h e (List.mem_of_find?_eq_some at')

/-- The machine after an instruction that changed only the stack, the globals and the output. -/
structure Changed (m : Machine) (b n g : Nat) (i : Instr) (m' : Machine) : Prop where
  frames : m'.frames = m.frames
  labels : m'.labels = m.labels
  pc : m'.pc = m.pc
  level : m'.Level
  values : Values m'.stack
  globals : ValuesIn m'.globals
  size : m'.stack.size = n + g
  /-- The cells that the instruction does not take are as before, except for one that it stores
  into. -/
  kept : ∀ j < n, (∀ k : Nat, i = .storeLocal (.index k) → j ≠ k + b) →
    m'.stack[j]? = m.stack[j]?

theorem changed_push {i : Instr} {v : Value} (values : Values m.stack)
    (globals : ValuesIn m.globals) (size : m.stack.size = n) :
    Changed m b n 1 i (m.withStack (m.stack.push (.value v))) := by
  refine ⟨rfl, rfl, rfl, rfl, values.push v, globals, ?_, ?_⟩
  · change (m.stack.push (.value v)).size = n + 1
    rw [Array.size_push, size]
  · intro j lt _
    exact agree_push (Nat.le_of_eq size.symm) j lt

theorem changed_pop {i : Instr} {out : String} (values : Values s) (globals : ValuesIn m.globals)
    (size : s.size = n) (agree : Agree n m.stack s) :
    Changed m b n 0 i { m.withStack s with output := out } :=
  ⟨rfl, rfl, rfl, rfl, values, globals, size, fun j lt _ => agree j lt⟩

theorem changed_operation {i : Instr} {message : String} {r : Except OperationError Value}
    (values : Values s) (globals : ValuesIn m.globals) (size : s.size = n)
    (agree : Agree n m.stack s) (done : afterOperation m s message r = .ok () m') :
    Changed m b n 1 i m' := by
  match r with
  | .ok v =>
    cases done
    refine ⟨rfl, rfl, rfl, rfl, values.push v, globals, ?_, ?_⟩
    · change (s.push (.value v)).size = n + 1
      rw [Array.size_push, size]
    · intro j lt _
      exact (agree.trans (agree_push (Nat.le_of_eq size.symm))) j lt
  | .error .tags => cases done
  | .error (.fault f) => cases done

theorem cellAt_eq_ok {i : Nat} {c : Cell} (h : cellAt i m = .ok c m') :
    m.stack[i]? = some c ∧ m' = m := by
  rw [cellAt, get_bind] at h
  by_cases lt : i < m.stack.size
  · have cell : m.stack[i]? = some m.stack[i] := Array.getElem?_eq_getElem lt
    have position : position? m.stack.size i = some i := by simp [position?, lt]
    rw [position] at h
    simp only [cell] at h
    cases h
    exact ⟨cell, rfl⟩
  · have position : position? m.stack.size i = none := by
      simp only [position?, Int.natCast_nonneg, if_true, Int.ofNat_lt, lt, if_false]
    rw [position] at h
    cases h

theorem setCellAt_eq_ok {i : Nat} {c : Cell} (h : setCellAt i c m = .ok () m') :
    i < m.stack.size ∧ m' = { m with stack := m.stack.setIfInBounds i c } := by
  rw [setCellAt, get_bind] at h
  by_cases lt : i < m.stack.size
  · have position : position? m.stack.size i = some i := by simp [position?, lt]
    rw [position] at h
    cases h
    exact ⟨lt, rfl⟩
  · have position : position? m.stack.size i = none := by
      simp only [position?, Int.natCast_nonneg, if_true, Int.ofNat_lt, lt, if_false]
    rw [position] at h
    cases h

theorem loadLocal_eq_ok {i : Nat} (based : m.Based b) (level : m.Level)
    (done : execute (.loadLocal (.index i)) m = .ok () m') :
    ∃ c, m.stack[i + b]? = some c ∧ m' = m.withStack (m.stack.push c) := by
  rw [execute, loadLocal, bind_of_ok (localPlace_eq based)] at done
  obtain ⟨_, _, index, done⟩ := bind_eq_ok.mp done
  cases index
  obtain ⟨c, _, cell, pushed⟩ := bind_eq_ok.mp done
  obtain ⟨cell, rfl⟩ := cellAt_eq_ok cell
  rw [push_eq level] at pushed
  cases pushed
  exact ⟨c, cell, rfl⟩

theorem storeLocal_eq_ok {i : Nat} {c : Cell} (based : m.Based b) (top : m.stack = s.push c)
    (level : m.Level) (done : execute (.storeLocal (.index i)) m = .ok () m') :
    m' = m.withStack (s.setIfInBounds (i + b) c) := by
  have lt : i + b < s.size := by
    rw [execute, storeLocal, bind_of_ok (localPlace_eq based), bind_of_ok (pop_eq top level)]
      at done
    obtain ⟨_, _, index, done⟩ := bind_eq_ok.mp done
    cases index
    exact (setCellAt_eq_ok done).1
  rw [execute_storeLocal based top lt level] at done
  cases done
  rfl

/-- What an instruction does that succeeds and is followed by the next. -/
theorem changed_of_effect {i : Instr} {t g : Nat} (effect : effect? i = some (t, g))
    (level : m.Level) (values : Values m.stack) (globals : ValuesIn m.globals)
    (based : m.Based b) (size : m.stack.size = n + t) (done : execute i m = .ok () m') :
    Changed m b n g i m' := by
  match i with
  | .push (.value v) =>
    cases effect
    rw [execute, push_eq level] at done
    cases done
    exact changed_push values globals size
  | .pop =>
    cases effect
    obtain ⟨s, v, top, values, size⟩ := values.top (n := 0) size
    rw [execute_pop top level] at done
    cases done
    exact changed_pop values globals size (top ▸ agree_pop (Nat.le_of_eq size.symm))
  | .binary op =>
    cases effect
    obtain ⟨s, w, top, values, size⟩ := values.top (n := 1) size
    obtain ⟨s, v, rfl, values, size⟩ := values.top (n := 0) size
    rw [execute_binary top level] at done
    refine changed_operation values globals size ?_ done
    rw [top]
    exact (agree_pop (by simp; omega)).trans (agree_pop (by omega))
  | .bitwise op =>
    cases effect
    obtain ⟨s, w, top, values, size⟩ := values.top (n := 1) size
    obtain ⟨s, v, rfl, values, size⟩ := values.top (n := 0) size
    rw [execute_bitwise top level] at done
    refine changed_operation values globals size ?_ done
    rw [top]
    exact (agree_pop (by simp; omega)).trans (agree_pop (by omega))
  | .neg =>
    cases effect
    obtain ⟨s, v, top, values, size⟩ := values.top (n := 0) size
    rw [execute_neg top level] at done
    exact changed_operation values globals size (top ▸ agree_pop (Nat.le_of_eq size.symm)) done
  | .print | .println =>
    cases effect
    obtain ⟨s, v, top, values, size⟩ := values.top (n := 0) size
    rw [execute, print_eq top level] at done
    split at done
    · cases done
      exact changed_pop values globals size (top ▸ agree_pop (Nat.le_of_eq size.symm))
    · cases done
  | .label _ | .setSlot _ =>
    cases effect
    cases done
    exact ⟨rfl, rfl, rfl, level, values, globals, size, fun _ _ _ => rfl⟩
  | .loadGlobal slot =>
    cases effect
    cases found : m.global? slot with
    | none =>
      rw [execute, loadGlobal, get_bind, found] at done
      cases done
    | some c =>
      obtain ⟨v, rfl⟩ := globals.find found
      rw [execute_loadGlobal found level] at done
      cases done
      exact changed_push values globals size
  | .storeGlobal slot =>
    cases effect
    obtain ⟨s, v, top, values, size⟩ := values.top (n := 0) size
    rw [execute_storeGlobal top level] at done
    cases done
    refine ⟨rfl, rfl, rfl, rfl, values, globals.put slot v, size, fun j lt _ => ?_⟩
    rw [top]
    exact agree_pop (Nat.le_of_eq size.symm) j lt
  | .loadLocal (.index (.ofNat k)) =>
    cases effect
    obtain ⟨c, cell, rfl⟩ := loadLocal_eq_ok based level done
    obtain ⟨v, rfl⟩ := values c (Array.mem_of_getElem? cell)
    exact changed_push values globals size
  | .storeLocal (.index (.ofNat k)) =>
    cases effect
    obtain ⟨s, v, top, values, size⟩ := values.top (n := 0) size
    obtain rfl := storeLocal_eq_ok based top level done
    refine ⟨rfl, rfl, rfl, rfl, ?_, globals, ?_, ?_⟩
    · intro c mem
      rcases Array.mem_or_eq_of_mem_setIfInBounds mem with mem | rfl
      · exact values c mem
      · exact ⟨v, rfl⟩
    · change (s.setIfInBounds (k + b) (.value v)).size = n
      simpa using size
    · intro j lt other
      have ne := other k rfl
      change (s.setIfInBounds (k + b) (.value v))[j]? = m.stack[j]?
      rw [Array.getElem?_setIfInBounds, if_neg (Ne.symm ne), top]
      exact agree_pop (Nat.le_of_eq size.symm) j lt

/-! ### A watched call -/

/-- A call that is watched: its frame with those of the calls around it, where its cells begin, and
the first instruction of its function. The whole program is such a call too, without a frame. -/
structure Watch where
  frames : List Frame
  base : Nat
  owner : Nat
  based : BaseOf frames base

/-- The calls that run inside a watched one, up to the innermost: where the cells of the innermost
begin, its owner and its floor, and the floor of the watched call. Each goes back to a spot of
`P`. -/
inductive Pending (P : Spot → Prop) (w : Watch) : List Frame → Nat → Nat → Nat → Nat → Prop where
  | none {f} : Pending P w w.frames w.base w.owner f f
  | more {frames b o f n own name back o' f'} : Pending P w frames b o f own →
      P ⟨back, f, n + 1, o, Option.none⟩ →
      Pending P w (⟨name, back, .int (b + f + n : Nat)⟩ :: frames) (b + f + n) o' f' own

variable {w : Watch} {frames : List Frame} {o f own : Nat}

theorem Pending.based (h : Pending P w frames b o f own) : BaseOf frames b := by
  cases h with
  | none => exact w.based
  | more => rfl

/-- The cells that the watched call leaves alone are not above those of the innermost call. -/
theorem Pending.floor_le (h : Pending P w frames b o f own) : w.base + own ≤ b + f := by
  induction h with
  | none => exact Nat.le_refl _
  | more _ _ ih => omega

theorem Pending.length_le (h : Pending P w frames b o f own) :
    w.frames.length ≤ frames.length := by
  induction h with
  | none => exact Nat.le_refl _
  | more _ _ ih => exact Nat.le_succ_of_le ih

/-- Where another call runs, they are below its cells. -/
theorem Pending.floor_le_base (h : Pending P w frames b o f own)
    (inner : frames.length ≠ w.frames.length) : w.base + own ≤ b := by
  cases h with
  | none => exact absurd rfl inner
  | more outer =>
    have le := outer.floor_le
    omega

theorem Pending.here (h : Pending P w frames b o f own)
    (same : frames.length = w.frames.length) :
    frames = w.frames ∧ b = w.base ∧ o = w.owner ∧ f = own := by
  cases h with
  | none => exact ⟨rfl, rfl, rfl, rfl⟩
  | more outer =>
    have le := outer.length_le
    simp only [List.length_cons] at same
    omega

/-- Another floor for the innermost call: the watched one has it too, or is around it. -/
theorem Pending.lower (h : Pending P w frames b o f own) (f' : Nat) :
    ∃ own', Pending P w frames b o f' own' ∧ (own' = own ∨ own' = f') := by
  cases h with
  | none => exact ⟨f', .none, .inr rfl⟩
  | more outer back => exact ⟨own, .more outer back, .inl rfl⟩

/-- A machine is at a spot while a call is watched. -/
structure Stands (labels : Labels) (P : Spot → Prop) (w : Watch) (m : Machine) (b own : Nat)
    (p : Spot) : Prop where
  level : m.Level
  labels : m.labels = labels
  values : Values m.stack
  globals : ValuesIn m.globals
  pending : Pending P w m.frames b p.owner p.floor own
  height : m.stack.size = b + p.floor + p.above
  pc : m.pc = p.pc
  count : ∀ n, p.count = some n → m.stack.back? = some (.value (.number (.int n)))

/-- The cells that the watched call leaves alone, but for its own stores. -/
def Keeps (code : Array Instr) (w : Watch) (own : Nat) (m m' : Machine) : Prop :=
  ∀ i < own, (m.frames.length = w.frames.length →
      code[m.pc]? ≠ some (.storeLocal (.index (i : Nat)))) →
    m'.stack[w.base + i]? = m.stack[w.base + i]?

/-- What a step leads to. -/
structure Onto (code : Array Instr) (labels : Labels) (P : Spot → Prop) (w : Watch)
    (m : Machine) (own : Nat) (m' : Machine) (b' own' : Nat) (p' : Spot) : Prop where
  spot : P p'
  stands : Stands labels P w m' b' own' p'
  /-- The floor of the watched call stays, or is given up. -/
  floor : own' = own ∨ own' = 0
  keeps : Keeps code w own' m m'

/-! ### One step -/

variable {pc above k : Nat} {cnt : Option Nat}

theorem keeps_of_agree (le : w.base + own ≤ n) (agree : Agree n m.stack m'.stack) :
    Keeps code w own m m' :=
  fun i lt _ => agree (w.base + i) (by omega)

/-- An instruction that is followed by the next, while the floor stays. -/
theorem Stands.plain {i : Instr} {t g : Nat} {count : Option Nat}
    (h : Stands labels P w m b own ⟨pc, f, above + t, o, cnt⟩) (fetch : code[pc]? = some i)
    (effect : effect? i = some (t, g)) (done : execute i m.fetched = .ok () m')
    (counted : ∀ n, count = some n → m'.stack.back? = some (.value (.number (.int n))))
    (next : P ⟨pc + 1, f, above + g, o, count⟩) :
    Onto code labels P w m own m' b own ⟨pc + 1, f, above + g, o, count⟩ := by
  have based : m.fetched.Based b := h.pending.based
  have height : m.fetched.stack.size = b + f + above + t := h.height.trans (by simp only; omega)
  have changed := changed_of_effect effect h.level.fetched h.values h.globals based height done
  have le : w.base + own ≤ b + f := h.pending.floor_le
  refine ⟨next, ⟨changed.level, changed.labels.trans h.labels, changed.values, changed.globals,
    ?_, ?_, ?_, counted⟩, .inl rfl, ?_⟩
  · rw [changed.frames]
    exact h.pending
  · exact changed.size.trans (Nat.add_assoc _ _ _)
  · rw [changed.pc]
    exact congrArg (· + 1) h.pc
  · intro j lt own_store
    refine changed.kept (w.base + j) (by omega) ?_
    rintro k rfl same
    by_cases here : m.frames.length = w.frames.length
    · obtain ⟨-, rfl, -⟩ := h.pending.here here
      obtain rfl : k = j := by omega
      apply own_store here
      rw [h.pc]
      exact fetch
    · have base := h.pending.floor_le_base here
      omega

/-- The same stack elsewhere. -/
theorem Stands.place (h : Stands labels P w m b own ⟨pc, f, above, o, cnt⟩) {a : Nat}
    (next : P ⟨a, f, above, o, none⟩) :
    Onto code labels P w m own { m with pc := a } b own ⟨a, f, above, o, none⟩ :=
  ⟨next, ⟨h.level, h.labels, h.values, h.globals, h.pending, h.height, rfl, no_count⟩, .inl rfl,
    fun _ _ _ => rfl⟩

theorem Stands.counts {j : Nat} (h : Stands labels P w m b own ⟨pc, f, above, o, cnt⟩)
    (fetch : code[pc]? = some (.push (.value (.number (.int j)))))
    (done : execute (.push (.value (.number (.int j)))) m.fetched = .ok () m')
    (next : P ⟨pc + 1, f, above + 1, o, some j⟩) :
    Onto code labels P w m own m' b own ⟨pc + 1, f, above + 1, o, some j⟩ := by
  refine h.plain (t := 0) fetch rfl done ?_ next
  rintro n ⟨⟩
  rw [execute, push_eq h.level.fetched] at done
  cases done
  exact Array.back?_push

/-- A cell is removed, and none is left alone any more. -/
theorem Stands.frees {j : Nat} (h : Stands labels P w m b own ⟨pc, f, above, o, cnt⟩)
    (size : f + above = j + 1) (done : execute .pop m.fetched = .ok () m')
    (next : P ⟨pc + 1, 0, j, o, none⟩) :
    ∃ own', Onto code labels P w m own m' b own' ⟨pc + 1, 0, j, o, none⟩ := by
  have based : m.fetched.Based b := h.pending.based
  have height : m.fetched.stack.size = b + j + 1 := h.height.trans (by simp only; omega)
  have changed := changed_of_effect (i := .pop) rfl h.level.fetched h.values h.globals based height
    done
  obtain ⟨own', pending, floor⟩ := h.pending.lower 0
  have le : w.base + own' ≤ b := pending.floor_le
  refine ⟨own', next, ⟨changed.level, changed.labels.trans h.labels, changed.values,
    changed.globals, ?_, changed.size, ?_, no_count⟩, floor, ?_⟩
  · rw [changed.frames]
    exact pending
  · rw [changed.pc]
    exact congrArg (· + 1) h.pc
  · intro i lt _
    exact changed.kept (w.base + i) (by omega) nofun

theorem Stands.test {l : Label} {a : Nat}
    (h : Stands labels P w m b own ⟨pc, f, above + 1, o, cnt⟩)
    (found : labels.lookup? l = some a)
    (done : execute (.jumpIfZero l) m.fetched = .ok () m')
    (next : P ⟨pc + 1, f, above, o, none⟩) (other : P ⟨a, f, above, o, none⟩) :
    ∃ p', Onto code labels P w m own m' b own p' := by
  obtain ⟨s, v, top, values, size⟩ := h.values.top (n := above) (b := b + f) h.height
  have le : w.base + own ≤ b + f := h.pending.floor_le
  rw [execute_jumpIfZero (m := m.fetched) top h.level (h.labels ▸ found)] at done
  cases done
  have stands : ∀ pc', Stands labels P w { m.withStack s with pc := pc' } b own
      ⟨pc', f, above, o, none⟩ := by
    intro pc'
    exact ⟨rfl, h.labels, values, h.globals, h.pending, size, rfl, no_count⟩
  have keeps : ∀ pc', Keeps code w own m { m.withStack s with pc := pc' } := by
    intro pc'
    refine keeps_of_agree le ?_
    rw [top]
    exact agree_pop (by omega)
  cases v.datum.same (.int 0) with
  | true => exact ⟨_, other, stands a, .inl rfl, keeps a⟩
  | false =>
    refine ⟨_, next, ?_, .inl rfl, keeps _⟩
    have same : m.fetched.pc = pc + 1 := congrArg (· + 1) h.pc
    rw [← same]
    exact stands _

/-- Before a call its arguments are on the stack, and their number on top of them. -/
theorem Stands.counted {j : Nat}
    (h : Stands labels P w m b own ⟨pc, f, above + j + 1, o, some j⟩) :
    ∃ s, m.stack = s.push (.value (.number (.int j))) ∧ Values s ∧
      s.size = b + f + (above + j) := by
  obtain ⟨s, v, top, values, size⟩ := h.values.top (n := above + j) (b := b + f) h.height
  have count := h.count j rfl
  rw [top, Array.back?_push] at count
  cases count
  exact ⟨s, top, values, size⟩

theorem Stands.enter {l : Label} {a j : Nat}
    (h : Stands labels P w m b own ⟨pc, f, above + j + 1, o, some j⟩)
    (found : labels.lookup? l = some a) (done : execute (.enter l) m.fetched = .ok () m')
    (entry : P ⟨a, j, 0, a, none⟩) (back : P ⟨pc + 1, f, above + 1, o, none⟩) :
    Onto code labels P w m own m' (b + f + above) own ⟨a, j, 0, a, none⟩ := by
  obtain ⟨s, top, values, size⟩ := h.counted
  have sub : s.size - j = b + f + above := by omega
  rw [execute_enter (m := m.fetched) top h.level (by omega) (h.labels ▸ found), sub] at done
  cases done
  refine ⟨entry, ⟨rfl, h.labels, values, h.globals, ?_, ?_, rfl, no_count⟩, .inl rfl, ?_⟩
  · have back' : P ⟨m.fetched.pc, f, above + 1, o, none⟩ := by
      rw [show m.fetched.pc = pc + 1 from congrArg (· + 1) h.pc]
      exact back
    exact .more h.pending back'
  · exact size.trans (by simp only; omega)
  · have le : w.base + own ≤ b + f := h.pending.floor_le
    refine keeps_of_agree le ?_
    rw [top]
    exact agree_pop (by omega)

theorem lift_eq_ok {α : Type} {r : Except Fault α} {x : α} (h : lift r m = .ok x m') :
    r = .ok x ∧ m' = m := by
  cases r with
  | ok y =>
    cases h
    exact ⟨rfl, rfl⟩
  | error e => cases h

theorem aboveBase_eq_ok {above : Bool} (h : aboveBase m = .ok above m') :
    m' = m ∧ m.frames ≠ [] := by
  rw [aboveBase, get_bind] at h
  cases frames : m.frames with
  | nil =>
    rw [frames] at h
    cases h
  | cons f rest =>
    rw [frames] at h
    simp only at h
    exact ⟨(lift_eq_ok h).2, List.cons_ne_nil f rest⟩

theorem pop_frames {c : Cell} (h : pop m = .ok c m') : m'.frames = m.frames := by
  unfold pop at h
  split at h <;> cases h
  rfl

theorem unwind_frames {j : Nat} (h : unwind j m = .ok () m') : m'.frames = m.frames := by
  induction j generalizing m with
  | zero =>
    cases h
    rfl
  | succ j ih =>
    obtain ⟨above, _, tested, h⟩ := bind_eq_ok.mp h
    obtain ⟨rfl, -⟩ := aboveBase_eq_ok tested
    cases above with
    | true =>
      obtain ⟨c, m₂, popped, rest⟩ := bind_eq_ok.mp h
      exact (ih rest).trans (pop_frames popped)
    | false =>
      cases h
      rfl

theorem cellAt_same {i : Int} {c : Cell} (h : cellAt i m = .ok c m') : m' = m := by
  rw [cellAt, get_bind] at h
  cases position : position? m.stack.size i with
  | some k =>
    rw [position] at h
    exact (lift_eq_ok h).2
  | none =>
    rw [position] at h
    cases h

/-- Only a call can be left. -/
theorem leave_frames (done : execute .leave m = .ok () m') :
    ∃ fr rest, m.frames = fr :: rest ∧ m'.frames = rest := by
  rw [execute, leave, get_bind] at done
  obtain ⟨c, _, result, done⟩ := bind_eq_ok.mp done
  obtain rfl := cellAt_same result
  obtain ⟨_, m₂, unwound, done⟩ := bind_eq_ok.mp done
  have same := unwind_frames unwound
  obtain ⟨above, _, tested, -⟩ := bind_eq_ok.mp unwound
  obtain ⟨-, call⟩ := aboveBase_eq_ok tested
  obtain ⟨fr, rest, frames⟩ := List.exists_cons_of_ne_nil call
  obtain ⟨_, m₃, pushed, done⟩ := bind_eq_ok.mp done
  cases pushed
  refine ⟨fr, rest, frames, ?_⟩
  rw [frames] at same
  obtain ⟨stack, calls, labels, globals, pc, sp, running, output⟩ := m₂
  obtain rfl : calls = fr :: rest := same
  cases done
  rfl

theorem Stands.leave (h : Stands labels P w m b own ⟨pc, f, above + 1, o, cnt⟩)
    (done : execute .leave m.fetched = .ok () m') (deep : w.frames.length ≤ m'.frames.length) :
    ∃ b' p', Onto code labels P w m own m' b' own p' := by
  obtain ⟨s, v, top, values, size⟩ := h.values.top (n := above) (b := b + f) h.height
  obtain ⟨fr, rest, frames, left⟩ := leave_frames done
  have frames : m.frames = fr :: rest := frames
  have pending : Pending P w (fr :: rest) b o f own := frames ▸ h.pending
  rw [left] at deep
  generalize all : fr :: rest = calls at pending
  cases pending with
  | none =>
    rw [← all] at deep
    exact absurd deep (Nat.not_succ_le_self _)
  | @more outer b' o' f' n' _ name back _ _ outer back' =>
    obtain ⟨rfl, rfl⟩ := List.cons.inj all
    rw [execute_leave_take (m := m.fetched) frames rfl top (by omega) h.level] at done
    cases done
    refine ⟨b', _, back', ⟨rfl, h.labels, ?_, h.globals, outer, ?_, rfl, no_count⟩,
      .inl rfl, ?_⟩
    · exact (values.take _).push v
    · change ((s.take (b' + f' + n')).push (.value v)).size = b' + f' + (n' + 1)
      rw [Array.size_push, size_take (by omega), Nat.add_assoc]
    · have le := outer.floor_le
      refine keeps_of_agree (n := b' + f' + n') (by omega) ?_
      rw [top]
      exact ((agree_pop (by omega)).trans (agree_take _ s)).trans
        (agree_push (Nat.le_of_eq (size_take (by omega)).symm))

/-- A step from a spot of a set that every spot of it leads into. -/
theorem Stands.next (h : Stands labels P w m b own p) (goes : Goes code labels P p)
    (done : step code m = .ok () m') (running : m'.running = true)
    (deep : w.frames.length ≤ m'.frames.length) :
    ∃ b' own' p', Onto code labels P w m own m' b' own' p' := by
  have fetched : ∀ {i}, code[p.pc]? = some i → execute i m.fetched = .ok () m' := by
    intro i fetch
    rw [← done, step_eq (h.pc.symm ▸ fetch)]
  cases goes with
  | plain fetch effect next =>
    exact ⟨_, _, _, h.plain fetch effect (fetched fetch) no_count next⟩
  | counts fetch next => exact ⟨_, _, _, h.counts fetch (fetched fetch) next⟩
  | frees fetch size next =>
    obtain ⟨own', onto⟩ := h.frees size (fetched fetch) next
    exact ⟨_, own', _, onto⟩
  | jump fetch found next =>
    have jumped := fetched fetch
    rw [execute, jump_eq (m := m.fetched) (h.labels ▸ found)] at jumped
    cases jumped
    exact ⟨_, _, _, h.place next⟩
  | jumpIfZero fetch found next other =>
    obtain ⟨p', onto⟩ := h.test found (fetched fetch) next other
    exact ⟨_, _, p', onto⟩
  | enter fetch found entry next => exact ⟨_, _, _, h.enter found (fetched fetch) entry next⟩
  | leave fetch =>
    obtain ⟨b', p', onto⟩ := h.leave (fetched fetch) deep
    exact ⟨b', _, p', onto⟩
  | halt fetch =>
    have halted := fetched fetch
    cases halted
    cases running

end ScriptLang.Machine
