import Mathlib
import ScriptLang.Proofs.Code.Heights
import ScriptLang.Proofs.Machine.Orderly
import ScriptLang.Proofs.Parse.Sound

/-!
Compiled code is safe to run.

Before every fetch of a run the machine is at a point of compiled code, so the instruction it
fetches finds what it needs (`Finds`), and no step touches what belongs to an outer call. A run can
only halt with nothing left on the stack, go on, or fail for what the data are.
-/

namespace ScriptLang.Machine

variable {code : Array Instr} {labels : Labels} {P : Point → Prop} {m m' : Machine} {b : Nat}
  {p : Point}

/-! ### What safety is -/

/-- The states of a fresh machine before the fetches of a run. -/
inductive Fetches (code : Array Instr) : Machine → Prop where
  | first {m : Machine} : start code.toList empty = .ok () m → Fetches code m
  | next {m m' : Machine} : Fetches code m → step code m = .ok () m' → m'.running = true →
      Fetches code m'

/-- The counted height is the height, and each call begins no lower than the one around it. -/
structure Orderly (m : Machine) : Prop where
  level : m.sp = m.stack.size
  bases : ∃ bases : List Nat, m.frames.map (·.base) = bases.map (fun b : Nat => Datum.int b) ∧
    (m.stack.size :: bases).Pairwise (· ≥ ·)

/-- A machine has what an instruction needs. -/
def Finds (m : Machine) : Instr → Prop
  | .push _ | .label _ | .setSlot _ => True
  | .pop | .neg | .print | .println | .storeGlobal _ => 0 < m.stack.size
  | .binary _ | .bitwise _ => 1 < m.stack.size
  | .jump l => (m.labels.lookup? l).isSome
  | .jumpIfZero l => 0 < m.stack.size ∧ (m.labels.lookup? l).isSome
  | .enter l => (m.labels.lookup? l).isSome ∧
      ∃ n : Nat, m.stack.back? = some (.value (.number (.int n))) ∧ n < m.stack.size
  | .leave => ∃ f rest, ∃ b : Nat, m.frames = f :: rest ∧ f.base = .int b ∧ b < m.stack.size
  | .loadGlobal s => (m.global? s).isSome
  | .loadLocal (.index i) => ∃ n b : Nat, i = n ∧ m.Based b ∧ b + n < m.stack.size
  | .storeLocal (.index i) => ∃ n b : Nat, i = n ∧ m.Based b ∧ b + n < m.stack.size - 1
  | .halt => m.stack = #[] ∧ m.frames = []
  | .loadLocal _ | .storeLocal _ | .other _ => False

/-- The state that a step leaves, also if it fails. -/
def after (code : Array Instr) (m : Machine) : Machine :=
  match step code m with
  | .ok _ m' | .error _ m' => m'

/-- What holds before every fetch. -/
structure SafeAt (code : Array Instr) (m : Machine) : Prop where
  orderly : Orderly m
  fetch : ∃ i, code[m.pc]? = some i ∧ m.Finds i
  next : Orderly (after code m)
  /-- A step leaves the cells below the base of every running call as they are. -/
  below : ∀ f ∈ m.frames, ∀ b : Nat, f.base = .int b → Agree b m.stack (after code m).stack

/-- How a run may end within some number of fetches. -/
def Ends : Outcome × Machine → Prop
  | (.halted, m) => m.stack = #[] ∧ m.frames = []
  | (.failed f, _) => Harmless f
  | (.limit, _) => True

/-! ### Machines at points -/

theorem Agree.mono {s s' : Array Cell} {a : Nat} (h : Agree b s s') (le : a ≤ b) : Agree a s s' :=
  fun i lt => h i (Nat.lt_of_lt_of_le lt le)

theorem Calls.bases {stored : Nat → Prop} {frames : List Frame} (h : Calls P stored frames b) :
    ∃ bases : List Nat, frames.map (·.base) = bases.map (fun b : Nat => Datum.int b) ∧
      (b :: bases).Pairwise (· ≥ ·) := by
  induction h with
  | none => exact ⟨[], rfl, by simp⟩
  | @more name back b b' g rest _ le _ _ ih =>
    obtain ⟨bases, eq, sorted⟩ := ih
    refine ⟨b :: bases, by simp [eq], ?_⟩
    have below : ∀ x ∈ bases, b ≥ x := fun x mem =>
      Nat.le_trans (List.rel_of_pairwise_cons sorted mem) le
    refine .cons ?_ (.cons below (List.pairwise_cons.mp sorted).2)
    intro x mem
    rcases List.mem_cons.mp mem with rfl | mem
    · exact Nat.le_refl _
    · exact below x mem

/-- A stack that reaches up to the base of the running call. -/
theorem Calls.orderly {stored : Nat → Prop} (h : Calls P stored m.frames b) (level : m.Level)
    (le : b ≤ m.stack.size) : Orderly m := by
  obtain ⟨bases, eq, sorted⟩ := h.bases
  refine ⟨level, bases, eq, ?_⟩
  obtain ⟨below, rest⟩ := List.pairwise_cons.mp sorted
  exact .cons (fun x mem => Nat.le_trans (below x mem) le) rest

theorem Calls.base_le {stored : Nat → Prop} {frames : List Frame} (h : Calls P stored frames b)
    {f : Frame} (mem : f ∈ frames) {a : Nat} (base : f.base = .int a) : a ≤ b := by
  obtain ⟨bases, eq, sorted⟩ := h.bases
  have mem' : f.base ∈ bases.map fun b : Nat => Datum.int b := by
    rw [← eq]
    exact List.mem_map_of_mem mem
  obtain ⟨x, at', same⟩ := List.mem_map.mp mem'
  rw [base] at same
  obtain rfl : x = a := Int.ofNat_inj.mp (Datum.int.inj same)
  exact List.rel_of_pairwise_cons sorted at'

theorem Sits.finds (h : Sits labels P m b p) (follows : Follows code labels P p) :
    ∃ i, code[m.pc]? = some i ∧ m.Finds i := by
  obtain ⟨pc, n, g, k, count⟩ := p
  have height : m.stack.size = b + n := h.height
  rw [h.pc]
  cases follows with
  | push fetch | pushCount fetch | label fetch | setSlot fetch => exact ⟨_, fetch, trivial⟩
  | pop fetch | neg fetch | print fetch | println fetch | storeGlobal fetch | newGlobal fetch =>
    exact ⟨_, fetch, by change 0 < m.stack.size; omega⟩
  | binary fetch | bitwise fetch => exact ⟨_, fetch, by change 1 < m.stack.size; omega⟩
  | jump fetch found => exact ⟨_, fetch, by rw [Finds, h.labels, found]; rfl⟩
  | jumpIfZero fetch found => exact ⟨_, fetch, by omega, by rw [h.labels, found]; rfl⟩
  | enter fetch found =>
    exact ⟨_, fetch, by rw [h.labels, found]; rfl, _, h.count _ rfl, by omega⟩
  | leave fetch =>
    refine ⟨_, fetch, ?_⟩
    have based := h.calls.based
    cases frames : m.frames with
    | nil =>
      have call := h.inCall
      simp [frames] at call
    | cons f rest =>
      rw [Based, frames] at based
      exact ⟨f, rest, b, frames, based, by omega⟩
  | loadGlobal fetch lt =>
    obtain ⟨v, stored⟩ := h.stored _ lt
    exact ⟨_, fetch, by rw [Finds, stored]; rfl⟩
  | loadLocal fetch lt => exact ⟨_, fetch, _, b, rfl, h.calls.based, by omega⟩
  | storeLocal fetch lt => exact ⟨_, fetch, _, b, rfl, h.calls.based, by omega⟩
  | halt fetch =>
    have none : m.frames = [] := by simpa using h.inCall
    have calls := h.calls
    rw [none] at calls
    cases calls
    exact ⟨_, fetch, Array.eq_empty_of_size_eq_zero (by omega), none⟩

theorem Sits.safe (h : Sits labels P m b p) (follows : Follows code labels P p) :
    SafeAt code m := by
  have le : b ≤ m.stack.size := le_of_size h.height
  have next := h.next follows
  obtain ⟨orderly, agree⟩ : Orderly (after code m) ∧ Agree b m.stack (after code m).stack := by
    unfold after
    generalize step code m = result at next
    cases next with
    | on _ sits _ agree => exact ⟨sits.calls.orderly sits.level (le_of_size sits.height), agree⟩
    | halted _ level empty none agree =>
      refine ⟨⟨level, [], ?_, by simp⟩, agree⟩
      rw [none]
      rfl
    | failed _ level frames le agree =>
      exact ⟨Calls.orderly (frames ▸ h.calls) level le, agree⟩
  exact ⟨h.calls.orderly h.level le, h.finds follows, orderly,
    fun f mem a base => agree.mono (h.calls.base_le mem base)⟩

/-! ### Runs -/

/-- A machine that goes on from a point of a set in which every point is followed by others of
it. -/
def Going (labels : Labels) (P : Point → Prop) (m : Machine) : Prop :=
  m.running = true ∧ ∃ b p, P p ∧ Sits labels P m b p

section
variable (closed : ∀ p, P p → Follows code labels P p)
include closed

theorem Going.next (going : Going labels P m) (next : step code m = .ok () m')
    (running : m'.running = true) : Going labels P m' := by
  obtain ⟨_, b, p, mem, sits⟩ := going
  have result := sits.next (closed p mem)
  rw [next] at result
  cases result with
  | on mem' sits' _ _ => exact ⟨running, _, _, mem', sits'⟩
  | halted stopped => simp [running] at stopped

theorem Going.fetches (first : start code.toList empty = .ok () m) (going : Going labels P m)
    (fetches : Fetches code m') : Going labels P m' := by
  induction fetches with
  | first again =>
    rw [first] at again
    cases again
    exact going
  | next _ next running ih => exact ih.next closed next running

theorem Going.ends (going : Going labels P m) (n : Nat) : Ends (loop code n m) := by
  induction n generalizing m with
  | zero => trivial
  | succ n ih =>
    obtain ⟨running, b, p, mem, sits⟩ := going
    have result := sits.next (closed p mem)
    rw [loop]
    generalize step code m = r at result
    cases r with
    | error f m' =>
      cases result with
      | failed harmless => exact harmless
    | ok _ m' =>
      cases result with
      | on mem' sits' kept _ =>
        have running' : m'.running = true := kept.trans running
        simp only [running', if_true]
        exact ih ⟨running', _, _, mem', sits'⟩
      | halted stopped _ empty none _ =>
        simp only [stopped, Bool.false_eq_true, if_false]
        exact ⟨empty, none⟩

end

theorem sits_started {labels : Labels} (eq : (started code).labels = labels) :
    Sits labels P (started code) 0 Compiler.start where
  level := rfl
  labels := eq
  indexed := by simp [Indexed, started, empty]
  values := by simp [Values, started, empty]
  calls := .none
  height := rfl
  pc := rfl
  stored := by simp [Compiler.start]
  inCall := rfl
  count := no_count

/-- Code that was compiled from a program with its functions at top level, `ret` only in functions
and no `local` at top level is safe to run, whatever the program does. -/
theorem run_of_compiled_safe {tokens : List Token} {b : Block} {cur : Cursor}
    {shorter : cur.size < tokens.length + 1} {c : Compiler}
    (parsed : Parse.program tokens = .ok b cur shorter) (funcs : b.funcsOnTop = true)
    (rets : b.retsInFuncs = true) (noLocal : (b.stmts.all fun s => !s.isLocal) = true)
    (names : ∀ f ∈ b.funcNames, Compiler.Unreserved f)
    (compiled : Compiler.generate (.block b) .empty = .ok () c) :
    (∀ m, Fetches c.code m → SafeAt c.code m) ∧ ∀ n, Ends (run n c.code.toList empty) := by
  obtain ⟨ts, _, derived⟩ := Parse.block_derives ⟨shorter, parsed⟩
  have nested : b.allExprs Expr.nested = true := derived.nested fun _ _ eq => congrArg _ eq
  obtain ⟨c', emits, rfl⟩ := Compiler.emits_of_generate nested compiled
  obtain ⟨begun, located⟩ := start_compiled emits funcs names
  have onward := Compiler.onward_start emits located funcs rets noLocal
  generalize (c'.add .halt).code = code at *
  have closed : ∀ p, Onward code (started code).labels (fun _ => False) p →
      Follows code (started code).labels (Onward code (started code).labels fun _ => False) p := by
    rintro p (⟨⟨⟩⟩ | safe)
    exact safe.follows
  have going : Going _ _ (started code) := ⟨rfl, 0, _, onward, sits_started rfl⟩
  constructor
  · intro m fetches
    obtain ⟨_, b, p, mem, sits⟩ := going.fetches closed begun fetches
    exact sits.safe (closed p mem)
  · intro n
    rw [run, begun]
    simpa using going.ends closed n

/-- The tokens of a recursive function that returns out of a loop, and of a call of it. -/
def recursion : List Token :=
  [⟨.kwFunc, "func", 1⟩, ⟨.identifier, "f", 1⟩, ⟨.lparen, "(", 1⟩, ⟨.identifier, "a", 1⟩,
    ⟨.rparen, ")", 1⟩, ⟨.kwWhile, "while", 2⟩, ⟨.identifier, "a", 2⟩, ⟨.kwDo, "do", 2⟩,
    ⟨.kwLocal, "local", 3⟩, ⟨.identifier, "b", 3⟩, ⟨.assign, ":=", 3⟩, ⟨.tilde, "~", 3⟩,
    ⟨.identifier, "a", 3⟩, ⟨.kwRet, "ret", 4⟩, ⟨.identifier, "f", 4⟩, ⟨.lparen, "(", 4⟩,
    ⟨.identifier, "b", 4⟩, ⟨.rparen, ")", 4⟩, ⟨.kwEnd, "end", 5⟩, ⟨.kwRet, "ret", 6⟩,
    ⟨.identifier, "a", 6⟩, ⟨.kwEnd, "end", 7⟩, ⟨.kwPrintln, "println", 8⟩,
    ⟨.identifier, "f", 8⟩, ⟨.lparen, "(", 8⟩, ⟨.kwTrue, "true", 8⟩, ⟨.rparen, ")", 8⟩]

/-- The program that the tokens write. -/
def recursionTree : Block :=
  .mk [.func "f" [⟨"a", 1⟩]
      (.mk [.loop (.name "a" 2)
          (.mk [.assignLocal (.name "b" 3) (.unary ⟨.tilde, "~", 3⟩ (.name "a" 3) 3) 3,
            .ret (.call "f" [.name "b" 4] 4) 4] 4) 5, .ret (.name "a" 6) 6] 6) 1,
    .print (.call "f" [.bool true 8] 8) (.str "\n") 8] 8

/-- The code of the program. -/
def recursionCode : Array Instr :=
  #[.label "START", .jump "LBL1", .label "f", .setSlot (.str "0 (a)"), .label "LBL2",
    .loadLocal (.index 0), .jumpIfZero "LBL4", .label "LBL3", .loadLocal (.index 0),
    .push (.value (.bool true)), .bitwise .xor, .setSlot (.str "1 (b)"), .loadLocal (.index 1),
    .push (.value (.number (.int 1))), .enter "f", .leave, .pop, .jump "LBL2", .label "LBL4",
    .loadLocal (.index 0), .leave, .pop, .push (.value .nothing), .leave, .label "LBL1",
    .push (.value (.bool true)), .push (.value (.number (.int 1))), .enter "f", .println, .halt]

theorem recursion_safe :
    (∃ cur shorter, Parse.program recursion = .ok recursionTree cur shorter) ∧
      (∃ c, Compiler.generate (.block recursionTree) .empty = .ok () c ∧ c.code = recursionCode) ∧
      (∀ m, Fetches recursionCode m → SafeAt recursionCode m) ∧
      ∀ n, Ends (run n recursionCode.toList empty) := by
  have parsed : Parse.program recursion =
      .ok recursionTree ⟨recursion.reverse, []⟩ (by decide) := by
    cbv
  have compiled : Compiler.generate (.block recursionTree) .empty =
      .ok () ⟨recursionCode, #[], #[], #[⟨"f", true, 0, 1⟩], 0, 4⟩ := by
    cbv
  have names : ∀ f ∈ recursionTree.funcNames, Compiler.Unreserved f := by
    intro f mem
    obtain rfl : f = "f" := List.mem_singleton.mp mem
    refine ⟨by decide, fun k same => ?_⟩
    have chars := congrArg (fun s => s.toList.head?) same
    simp [Compiler.labelName] at chars
  exact ⟨⟨_, _, parsed⟩, ⟨_, compiled, rfl⟩,
    run_of_compiled_safe parsed (by decide) (by decide) (by decide) names compiled⟩

end ScriptLang.Machine
