import ScriptLang.Proofs.Machine.Stepping

/-!
Runs of the machine between two states.

A state of a running machine is given by what instructions change. There is one lemma for each
instruction that succeeds, and a run is made of them. A run leads the loop of the machine from one
state to the other (`Runs.loop`).
-/

namespace ScriptLang.Machine

/-- What a running machine has besides its labels. Its height is counted rightly. -/
structure Config where
  pc : Nat
  stack : Array Cell
  frames : List Frame
  globals : List (Slot × Cell)
  output : String

variable {code : Array Instr} {labels : Labels} {a b d : Config} {pc n i : Nat} {s : Array Cell}
  {fr : List Frame} {gl : List (Slot × Cell)} {out : String} {name : Label} {c : Cell} {v w : Value}

/-- The machine in a state. -/
def Config.machine (labels : Labels) (a : Config) : Machine :=
  ⟨a.stack, a.frames, labels, a.globals, a.pc, a.stack.size, true, a.output⟩

/-- The machine gets from one state to another. -/
inductive Runs (code : Array Instr) (labels : Labels) : Config → Config → Prop where
  | refl (a : Config) : Runs code labels a a
  | step {a b d : Config} : step code (a.machine labels) = .ok () (b.machine labels) →
      Runs code labels b d → Runs code labels a d

theorem Runs.single (h : Machine.step code (a.machine labels) = .ok () (b.machine labels)) :
    Runs code labels a b :=
  .step h (.refl b)

theorem Runs.trans (h : Runs code labels a b) (h' : Runs code labels b d) :
    Runs code labels a d := by
  induction h with
  | refl => exact h'
  | step first _ ih => exact .step first (ih h')

theorem Runs.loop (h : Runs code labels a b) (n : Nat) :
    ∃ k, loop code (k + n) (a.machine labels) = Machine.loop code n (b.machine labels) := by
  induction h with
  | refl => exact ⟨0, by rw [Nat.zero_add]⟩
  | step first _ ih =>
    obtain ⟨k, eq⟩ := ih
    refine ⟨k + 1, ?_⟩
    rw [Nat.add_right_comm, Machine.loop, first]
    exact eq

/-- The machine after its last instruction. -/
def Config.stopped (labels : Labels) (a : Config) : Machine :=
  { (a.machine labels).fetched with running := false }

/-- A run that comes to the end of a program. -/
theorem Runs.halts (h : Runs code labels a b) (fetch : code[b.pc]? = some .halt) :
    ∃ n, Machine.loop code n (a.machine labels) = (.halted, b.stopped labels) := by
  obtain ⟨k, eq⟩ := h.loop 1
  refine ⟨k + 1, ?_⟩
  have last : Machine.step code (b.machine labels) = execute .halt (b.machine labels).fetched :=
    step_eq fetch
  rw [eq, Machine.loop, last]
  rfl

/-! ### Instructions -/

theorem Config.level (labels : Labels) (a : Config) : (a.machine labels).fetched.Level := rfl

theorem runs_of_execute {i : Instr} (fetch : code[a.pc]? = some i)
    (done : execute i (a.machine labels).fetched = .ok () (b.machine labels)) :
    Runs code labels a b :=
  .single ((step_eq fetch).trans done)

theorem runs_push (fetch : code[pc]? = some (.push c)) :
    Runs code labels ⟨pc, s, fr, gl, out⟩ ⟨pc + 1, s.push c, fr, gl, out⟩ :=
  runs_of_execute fetch (push_eq (Config.level _ _) c)

theorem runs_pop (fetch : code[pc]? = some .pop) :
    Runs code labels ⟨pc, s.push c, fr, gl, out⟩ ⟨pc + 1, s, fr, gl, out⟩ :=
  runs_of_execute fetch (execute_pop rfl (Config.level _ _))

theorem runs_binary {op : BinaryOp} {r : Value} (fetch : code[pc]? = some (.binary op))
    (applied : result op v w = .ok r) :
    Runs code labels ⟨pc, (s.push (.value v)).push (.value w), fr, gl, out⟩
      ⟨pc + 1, s.push (.value r), fr, gl, out⟩ := by
  apply runs_of_execute fetch
  rw [execute_binary rfl (Config.level _ _), applied]
  rfl

theorem runs_bitwise {op : Bitwise} {r : Value} (fetch : code[pc]? = some (.bitwise op))
    (result : v.bitwise op w = .ok r) :
    Runs code labels ⟨pc, (s.push (.value v)).push (.value w), fr, gl, out⟩
      ⟨pc + 1, s.push (.value r), fr, gl, out⟩ := by
  apply runs_of_execute fetch
  rw [execute_bitwise rfl (Config.level _ _), result]
  rfl

theorem runs_neg {r : Value} (fetch : code[pc]? = some .neg) (negated : negative v = .ok r) :
    Runs code labels ⟨pc, s.push (.value v), fr, gl, out⟩
      ⟨pc + 1, s.push (.value r), fr, gl, out⟩ := by
  apply runs_of_execute fetch
  rw [execute_neg rfl (Config.level _ _), negated]
  rfl

theorem runs_print {text : String} (fetch : code[pc]? = some .print)
    (shown : Value.printed v.datum = .ok text) :
    Runs code labels ⟨pc, s.push (.value v), fr, gl, out⟩
      ⟨pc + 1, s, fr, gl, out ++ (text ++ "")⟩ := by
  apply runs_of_execute fetch
  rw [execute, print_eq rfl (Config.level _ _), shown]
  rfl

theorem runs_println {text : String} (fetch : code[pc]? = some .println)
    (shown : Value.printed v.datum = .ok text) :
    Runs code labels ⟨pc, s.push (.value v), fr, gl, out⟩
      ⟨pc + 1, s, fr, gl, out ++ (text ++ "\n")⟩ := by
  apply runs_of_execute fetch
  rw [execute, print_eq rfl (Config.level _ _), shown]
  rfl

theorem runs_label (fetch : code[pc]? = some (.label name)) :
    Runs code labels ⟨pc, s, fr, gl, out⟩ ⟨pc + 1, s, fr, gl, out⟩ :=
  runs_of_execute fetch rfl

theorem runs_setSlot {d : Datum} (fetch : code[pc]? = some (.setSlot d)) :
    Runs code labels ⟨pc, s, fr, gl, out⟩ ⟨pc + 1, s, fr, gl, out⟩ :=
  runs_of_execute fetch rfl

theorem runs_jump (fetch : code[pc]? = some (.jump name)) (found : labels.lookup? name = some n) :
    Runs code labels ⟨pc, s, fr, gl, out⟩ ⟨n, s, fr, gl, out⟩ :=
  runs_of_execute fetch (jump_eq found)

theorem runs_jumpIfZero (fetch : code[pc]? = some (.jumpIfZero name))
    (found : labels.lookup? name = some n) :
    Runs code labels ⟨pc, s.push (.value v), fr, gl, out⟩
      ⟨if v.datum.same (.int 0) then n else pc + 1, s, fr, gl, out⟩ :=
  runs_of_execute fetch (execute_jumpIfZero rfl (Config.level _ _) found)

/-- A call with `k` arguments, which are the topmost cells. -/
theorem runs_enter {t : Array Cell} (fetch : code[pc]? = some (.enter name))
    (found : labels.lookup? name = some n) :
    Runs code labels ⟨pc, (s ++ t).push (.value (.number (.int t.size))), fr, gl, out⟩
      ⟨n, s ++ t, ⟨name, pc + 1, .int s.size⟩ :: fr, gl, out⟩ := by
  have base : (s ++ t).size - t.size = s.size := by
    rw [Array.size_append, Nat.add_sub_cancel]
  apply runs_of_execute fetch
  rw [execute_enter rfl (Config.level _ _) (by simp) found, base]
  rfl

/-- A return from a call whose cells are above `s`. -/
theorem runs_leave {t : Array Cell} {f : Frame} (fetch : code[pc]? = some .leave)
    (base : f.base = .int s.size) :
    Runs code labels ⟨pc, (s ++ t).push c, f :: fr, gl, out⟩ ⟨f.back, s.push c, fr, gl, out⟩ :=
  runs_of_execute fetch (execute_leave (t := t.toList) rfl base rfl (Config.level _ _))

theorem runs_loadGlobal (fetch : code[pc]? = some (.loadGlobal (.index i)))
    (known : global? (.index i) (Config.machine labels ⟨pc, s, fr, gl, out⟩) = some c) :
    Runs code labels ⟨pc, s, fr, gl, out⟩ ⟨pc + 1, s.push c, fr, gl, out⟩ :=
  runs_of_execute fetch (execute_loadGlobal known (Config.level _ _))

theorem runs_storeGlobal (fetch : code[pc]? = some (.storeGlobal (.index i))) :
    Runs code labels ⟨pc, s.push c, fr, gl, out⟩
      ⟨pc + 1, s, fr, putGlobal (.index i) c gl, out⟩ :=
  runs_of_execute fetch (execute_storeGlobal rfl (Config.level _ _))

/-- Where the cells of the innermost of some calls begin. -/
def BaseOf (fr : List Frame) (b : Nat) : Prop :=
  match fr with
  | [] => b = 0
  | f :: _ => f.base = .int b

theorem runs_loadLocal {b : Nat} (fetch : code[pc]? = some (.loadLocal (.index i)))
    (base : BaseOf fr b) (cell : s[i + b]? = some c) :
    Runs code labels ⟨pc, s, fr, gl, out⟩ ⟨pc + 1, s.push c, fr, gl, out⟩ :=
  runs_of_execute fetch (execute_loadLocal base cell (Config.level _ _))

theorem runs_storeLocal {b : Nat} (fetch : code[pc]? = some (.storeLocal (.index i)))
    (base : BaseOf fr b) (lt : i + b < s.size) :
    Runs code labels ⟨pc, s.push c, fr, gl, out⟩
      ⟨pc + 1, s.setIfInBounds (i + b) c, fr, gl, out⟩ :=
  runs_of_execute fetch (execute_storeLocal base rfl lt (Config.level _ _))

end ScriptLang.Machine
