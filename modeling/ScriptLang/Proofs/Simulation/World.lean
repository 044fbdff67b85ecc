import ScriptLang.Proofs.Machine.Moves
import ScriptLang.Proofs.Simulation.Layers
import ScriptLang.Proofs.Value.Honest

/-!
What the compiler, the evaluator and the machine agree on.

The world is what does not change while a statement at top level is executed: the code, the globals
and the functions that are there (`World`). `Rooted` ties the outermost scope to the globals of the
machine, and `Context` the symbols of the compiler to layers. Inner scopes are changed by the
statements that see them only (`Keeps`).
-/

namespace ScriptLang.Simulation

open Compiler (lastIndexed? Emits Begins Placed AtTop)
open Machine (Located Indexed putGlobal global?_put BaseOf)

/-- The global in a numbered slot. -/
def globalAt (gl : List (Slot × Cell)) (i : Nat) : Option Cell :=
  (gl.find? fun e => e.1.same (.index i)).map (·.2)

theorem globalAt_put {gl : List (Slot × Cell)} (indexed : Indexed gl) (i j : Nat) (c : Cell) :
    globalAt (putGlobal (.index i) c gl) j = if i = j then some c else globalAt gl j :=
  global?_put (m := { Machine.empty with globals := gl }) indexed i j c

/-- What is fixed while a statement at top level is executed. -/
structure World where
  code : Array Instr
  labels : Labels
  /-- The symbols of the globals. -/
  globals : Array Symbol
  /-- The functions of the outermost scope. -/
  funcs : Table (Option Closure)
  /-- The names that the whole program assigns at top level. -/
  Top : String → Prop

variable {w : World} {f f' f'' : Forest Value Closure} {gl gl' : List (Slot × Cell)}
  {ts ts' : List Nat} {Γ Γ' : List Layer} {n : String} {i : Nat} {v : Value} {c c' : Compiler}
  {s : Symbol} {x : Held}

/-! ### The outermost scope -/

/-- The outermost scope and the machine have the same globals. -/
structure Rooted (w : World) (f : Forest Value Closure) (gl : List (Slot × Cell)) : Prop where
  around : f.around? 0 = some none
  funcs : f.funcs? 0 = some w.funcs
  /-- There are no functions in inner scopes. -/
  inner : ∀ {j fs}, f.funcs? j = some fs → j ≠ 0 → fs = []
  honest : ∀ {j n o}, f.bound? j n = some o → ∃ v, o = some v ∧ v.Honest
  free : ∀ {n}, lastIndexed? w.globals n = none → f.binds 0 n = false
  held : ∀ {n s i}, lastIndexed? w.globals n = some (s, i) →
    ∃ v, f.bound? 0 n = some (some v) ∧ globalAt gl i = some (.value v)
  indexed : Indexed gl
  /-- Only the slots of globals are used. -/
  slots : ∀ {i c}, globalAt gl i = some c → i < w.globals.size

/-- The outermost scope binds just the names of the globals. -/
theorem Rooted.binds_iff (rooted : Rooted w f gl) (n : String) :
    f.binds 0 n = true ↔ ∃ s ∈ w.globals, s.name = n := by
  constructor
  · intro bound
    cases found : lastIndexed? w.globals n with
    | none =>
      rw [rooted.free found] at bound
      cases bound
    | some p =>
      obtain ⟨at', name⟩ := Compiler.lastIndexed?_some found
      exact ⟨p.1, Array.mem_of_getElem? at', name⟩
  · rintro ⟨s, mem, name⟩
    cases found : lastIndexed? w.globals n with
    | none => exact absurd name (Compiler.lastIndexed?_eq_none.mp found s mem)
    | some p =>
      obtain ⟨v, entry, -⟩ := rooted.held found
      exact Forest.binds_of_bound entry

/-- No slots are used but those of the globals. -/
theorem Rooted.slot (rooted : Rooted w f gl) {e : Slot × Cell} (mem : e ∈ gl) :
    ∃ i : Nat, i < w.globals.size ∧ e.1 = .index i := by
  obtain ⟨i, slot⟩ := rooted.indexed e mem
  cases found : globalAt gl i with
  | some c => exact ⟨i, rooted.slots found, slot⟩
  | none =>
    rw [globalAt, Option.map_eq_none_iff, List.find?_eq_none] at found
    have other := found e mem
    rw [slot, Machine.same_index] at other
    simp at other

/-- Changes of no inner scopes but some, and of no names in the outermost one. -/
structure Keeps (ts : List Nat) (f f' : Forest Value Closure) : Prop where
  size : f.scopes.size ≤ f'.scopes.size
  same : ∀ i < f.scopes.size, i ≠ 0 → i ∉ ts → f'.scopes[i]? = f.scopes[i]?
  root : ∀ n, f'.binds 0 n = f.binds 0 n

theorem Keeps.refl (ts : List Nat) (f : Forest Value Closure) : Keeps ts f f :=
  ⟨Nat.le_refl _, fun _ _ _ _ => rfl, fun _ => rfl⟩

theorem Keeps.trans (h : Keeps ts f f') (h' : Keeps ts f' f'') : Keeps ts f f'' := by
  refine ⟨Nat.le_trans h.size h'.size, ?_, fun n => (h'.root n).trans (h.root n)⟩
  intro i lt ne away
  exact (h'.same i (Nat.lt_of_lt_of_le lt h.size) ne away).trans (h.same i lt ne away)

theorem Keeps.mono (h : Keeps ts f f') (sub : ∀ i ∈ ts, i < f.scopes.size → i ∈ ts') :
    Keeps ts' f f' :=
  ⟨h.size, fun i lt ne away => h.same i lt ne fun mem => away (sub i mem lt), h.root⟩

/-- Layers outside of the scopes that change. -/
theorem Linked.keeps {G : String → Prop} (linked : Linked f G Γ) (root : f.around? 0 = some none)
    (keeps : Keeps ts f f') (away : ∀ i ∈ Γ.map Layer.scope, i ∉ ts) : Linked f' G Γ := by
  have scopes : ∀ i ∈ Γ.map Layer.scope, f'.scopes[i]? = f.scopes[i]? := by
    intro i mem
    have lt := (linked.chain root).lt_size i (List.mem_append_left _ mem)
    exact keeps.same i lt (linked.scope_ne_zero mem) (away i mem)
  exact linked.congr_scopes scopes keeps.root

theorem keeps_child (f : Forest Value Closure) (i : Nat) (root : f.around? 0 = some none) :
    Keeps ts f (f.child i).2 := by
  have outer := Forest.scopes_child_of_lt (i := i) (Forest.lt_size_of_around root)
  exact ⟨by simp [Forest.child], fun j lt _ _ => Forest.scopes_child_of_lt lt,
    Forest.binds_congr outer⟩

theorem keeps_set {h : Nat} {o : Option Value} (mem : h ∈ ts) (ne : h ≠ 0) :
    Keeps ts f (f.setLocal h n o) := by
  refine ⟨Nat.le_of_eq (f.size_setLocal h n o).symm, ?_, ?_⟩
  · intro i _ _ away
    exact f.scopes_setLocal_of_ne n o fun eq => away (eq ▸ mem)
  · exact Forest.binds_congr (f.scopes_setLocal_of_ne n o ne)

theorem keeps_set_root {o : Option Value} (bound : f.binds 0 n = true) :
    Keeps ts f (f.setLocal 0 n o) := by
  refine ⟨Nat.le_of_eq (f.size_setLocal 0 n o).symm, ?_, ?_⟩
  · intro i _ ne _
    exact f.scopes_setLocal_of_ne n o (Ne.symm ne)
  · exact fun n' => Forest.binds_setLocal_of_binds bound o 0 n'

theorem Rooted.child (rooted : Rooted w f gl) (i : Nat) : Rooted w (f.child i).2 gl := by
  have lt := Forest.lt_size_of_around rooted.around
  have old : ∀ j ≠ f.scopes.size, (f.child i).2.scopes[j]? = f.scopes[j]? := by
    intro j ne
    rw [Forest.child, Array.getElem?_push, if_neg ne]
  have root := old 0 (Nat.ne_of_lt lt)
  refine ⟨?_, ?_, ?_, ?_, ?_, ?_, rooted.indexed, rooted.slots⟩
  · rw [Forest.around?, root]
    exact rooted.around
  · rw [Forest.funcs?, root]
    exact rooted.funcs
  · intro j fs funcs ne
    by_cases new : j = f.scopes.size
    · subst new
      rw [Forest.funcs?, Forest.scopes_child_size] at funcs
      cases funcs
      rfl
    · rw [Forest.funcs?, old j new] at funcs
      exact rooted.inner funcs ne
  · intro j n o entry
    by_cases new : j = f.scopes.size
    · subst new
      rw [Forest.bound?, Forest.scopes_child_size] at entry
      cases entry
    · rw [Forest.bound?, old j new] at entry
      exact rooted.honest entry
  · intro n none
    rw [Forest.binds, Forest.bound?, root]
    exact rooted.free none
  · intro n s i found
    rw [Forest.bound?, root]
    exact rooted.held found

theorem Rooted.honest_set {h : Nat} (rooted : Rooted w f gl) (lt : h < f.scopes.size)
    (honest : v.Honest) {j : Nat} {n' : String} {o : Option Value}
    (entry : (f.setLocal h n (some v)).bound? j n' = some o) : ∃ v, o = some v ∧ v.Honest := by
  rw [Forest.bound?_setLocal lt] at entry
  split at entry
  · cases entry
    exact ⟨v, rfl, honest⟩
  · exact rooted.honest entry

/-- What is left to show of the globals when a variable is set. -/
theorem Rooted.set {h : Nat} {globals : Array Symbol} (rooted : Rooted w f gl)
    (lt : h < f.scopes.size) (honest : v.Honest)
    (free : ∀ {n'}, lastIndexed? globals n' = none → (f.setLocal h n (some v)).binds 0 n' = false)
    (held : ∀ {n' s i}, lastIndexed? globals n' = some (s, i) →
      ∃ u, (f.setLocal h n (some v)).bound? 0 n' = some (some u) ∧
        globalAt gl' i = some (.value u))
    (indexed : Indexed gl') (slots : ∀ {i c}, globalAt gl' i = some c → i < globals.size) :
    Rooted { w with globals } (f.setLocal h n (some v)) gl' where
  around := (f.around?_setLocal h n _ 0).trans rooted.around
  funcs := (f.funcs?_setLocal h n _ 0).trans rooted.funcs
  inner := by
    intro j fs funcs
    rw [f.funcs?_setLocal] at funcs
    exact rooted.inner funcs
  honest := rooted.honest_set lt honest
  free := free
  held := held
  indexed := indexed
  slots := slots

/-- A variable of an inner scope changes. -/
theorem Rooted.set_inner {h : Nat} (rooted : Rooted w f gl) (lt : h < f.scopes.size) (ne : h ≠ 0)
    (honest : v.Honest) : Rooted w (f.setLocal h n (some v)) gl := by
  have root : ∀ n', (f.setLocal h n (some v)).bound? 0 n' = f.bound? 0 n' := by
    intro n'
    rw [Forest.bound?_setLocal lt, if_neg fun both => ne both.1]
  refine rooted.set lt honest ?_ ?_ rooted.indexed rooted.slots
  · intro n' none
    rw [Forest.binds, root]
    exact rooted.free none
  · intro n' s i found
    rw [root]
    exact rooted.held found

/-- A global changes. -/
theorem Rooted.set_global (rooted : Rooted w f gl) (found : lastIndexed? w.globals n = some (s, i))
    (honest : v.Honest) :
    Rooted w (f.setLocal 0 n (some v)) (putGlobal (.index i) (.value v) gl) := by
  have lt := Forest.lt_size_of_around rooted.around
  have bound : f.binds 0 n = true := by
    obtain ⟨v, entry, -⟩ := rooted.held found
    exact Forest.binds_of_bound entry
  refine rooted.set lt honest ?_ ?_ (rooted.indexed.put i _) ?_
  · intro n' none
    rw [Forest.binds_setLocal_of_binds bound]
    exact rooted.free none
  · intro n' s' j found'
    rw [Forest.bound?_setLocal lt, globalAt_put rooted.indexed]
    by_cases same : n = n'
    · subst same
      rw [found] at found'
      cases found'
      exact ⟨v, by simp, by simp⟩
    · have other : i ≠ j := by
        rintro rfl
        obtain ⟨at', name⟩ := Compiler.lastIndexed?_some found
        obtain ⟨at'', name'⟩ := Compiler.lastIndexed?_some found'
        rw [at'] at at''
        cases at''
        exact same (name.symm.trans name')
      rw [if_neg fun both => same both.2, if_neg other]
      exact rooted.held found'
  · intro j c' held
    rw [globalAt_put rooted.indexed] at held
    split at held
    · rename_i same
      obtain ⟨lt, -⟩ := Array.getElem?_eq_some_iff.mp (Compiler.lastIndexed?_some found).1
      exact same ▸ lt
    · exact rooted.slots held

/-- A global is new. -/
theorem Rooted.new_global (rooted : Rooted w f gl) (s : Symbol) (honest : v.Honest) :
    Rooted { w with globals := w.globals.push s } (f.setLocal 0 s.name (some v))
      (putGlobal (.index w.globals.size) (.value v) gl) := by
  have lt := Forest.lt_size_of_around rooted.around
  refine rooted.set lt honest ?_ ?_ (rooted.indexed.put _ _) ?_
  · intro n none
    rw [Compiler.lastIndexed?_push] at none
    split at none
    · cases none
    · rename_i other
      rw [Forest.binds_setLocal lt, decide_eq_false fun both => other both.2, Bool.false_or]
      exact rooted.free none
  · intro n s' i found
    rw [Compiler.lastIndexed?_push] at found
    rw [Forest.bound?_setLocal lt, globalAt_put rooted.indexed]
    split at found
    · rename_i same
      cases found
      exact ⟨v, by simp [same], by simp⟩
    · rename_i other
      obtain ⟨place, -⟩ := Array.getElem?_eq_some_iff.mp (Compiler.lastIndexed?_some found).1
      rw [if_neg fun both => other both.2, if_neg (Nat.ne_of_gt place)]
      exact rooted.held found
  · intro i c' held
    rw [globalAt_put rooted.indexed] at held
    rw [Array.size_push]
    split at held
    · omega
    · exact Nat.lt_succ_of_lt (rooted.slots held)

/-- A function is declared at top level. -/
theorem Rooted.declare (rooted : Rooted w f gl) (n : String) (clo : Option Closure) :
    Rooted { w with funcs := w.funcs.put n clo } (f.setFunc 0 n clo) gl := by
  have entry := f.bound?_setFunc 0 n clo
  refine ⟨?_, ?_, ?_, ?_, ?_, ?_, rooted.indexed, rooted.slots⟩
  · rw [f.around?_setFunc]
    exact rooted.around
  · rw [f.funcs?_setFunc, if_pos rfl, rooted.funcs]
    rfl
  · intro j fs funcs ne
    rw [f.funcs?_setFunc, if_neg (Ne.symm ne)] at funcs
    exact rooted.inner funcs ne
  · intro j n' o found
    rw [entry] at found
    exact rooted.honest found
  · intro n' none
    rw [Forest.binds, entry]
    exact rooted.free none
  · intro n' s i found
    rw [entry]
    exact rooted.held found

/-! ### Symbols -/

/-- A name is that of a known global. -/
def Knows (globals : Array Symbol) (n : String) : Prop := lastIndexed? globals n ≠ none

/-- A function that the compiler knows has been declared. -/
def Declared (w : World) (s : Symbol) : Prop :=
  ∃ clo, w.funcs.lookup? s.name = some (some clo) ∧ clo.params.length = s.arity

/-- The symbols of the compiler are the variables of layers, globals and functions of the world. -/
structure Context (w : World) (c : Compiler) (Γ : List Layer) : Prop where
  names : c.locals.toList.map (·.name) = ((flat Γ).map (·.name)).reverse
  placed : Placed c
  globals : ∀ {n p}, lastIndexed? c.globals n = some p → lastIndexed? w.globals n = some p
  functions : ∀ f ∈ c.functions, Declared w f
  deep : Γ ≠ [] → c.depth ≠ 0

theorem Context.same (context : Context w c Γ) (same : Compiler.SameSymbols c c') :
    Context w c' Γ := by
  obtain ⟨locals, globals, functions, depth⟩ := same
  refine ⟨?_, ⟨?_, ?_⟩, ?_, ?_, ?_⟩
  · rw [locals]
    exact context.names
  · rw [locals]
    exact context.placed.locals
  · rw [globals]
    exact context.placed.globals
  · rw [globals]
    exact context.globals
  · rw [functions]
    exact context.functions
  · rw [depth]
    exact context.deep

theorem Context.alike (context : Context w c Γ) (alike : Alike Γ Γ') : Context w c Γ' := by
  refine ⟨alike.names ▸ context.names, context.placed, context.globals, context.functions, ?_⟩
  intro some
  apply context.deep
  rintro rfl
  exact some (List.map_eq_nil_iff.mp alike)

/-- The slot of a name is found by its place among the names. -/
theorem lastIndexed?_of_names {symbols : Array Symbol} {xs : List Held}
    (names : symbols.toList.map (·.name) = (xs.map (·.name)).reverse) (n : String) :
    (lastIndexed? symbols n).map (·.2) = (seek n xs).map (·.2) := by
  induction xs generalizing symbols with
  | nil =>
    obtain rfl : symbols = #[] := by simpa using names
    rfl
  | cons x xs ih =>
    rw [List.map_cons, List.reverse_cons] at names
    have length := congrArg List.length names
    simp only [List.length_map, List.length_append, List.length_reverse, List.length_singleton,
      Array.length_toList] at length
    obtain ⟨rest, s, rfl⟩ := Array.exists_push_of_size_eq_add_one length
    rw [Array.toList_push, List.map_append, List.map_singleton] at names
    obtain ⟨names, last⟩ := List.append_inj' names rfl
    have last : s.name = x.name := (List.cons.inj last).1
    have size : rest.size = xs.length := by
      rw [Array.size_push] at length
      omega
    rw [Compiler.lastIndexed?_push, seek, last]
    split
    · simp [size]
    · exact ih names

theorem Context.slot (context : Context w c Γ) (n : String) :
    (lastIndexed? c.locals n).map (·.2) = (seek n (flat Γ)).map (·.2) :=
  lastIndexed?_of_names context.names n

/-- A name that the compiler knows is a variable of a layer or a global. -/
theorem Context.known (context : Context w c Γ) (found : c.varSymbol? n = some (s, i)) :
    (s.depth ≠ 0 ∧ ∃ x, seek n (flat Γ) = some (x, i)) ∨
      (s.depth = 0 ∧ seek n (flat Γ) = none ∧ lastIndexed? c.globals n = some (s, i)) := by
  have slot := context.slot n
  unfold Compiler.varSymbol? at found
  cases own : lastIndexed? c.locals n with
  | some p =>
    rw [own] at found slot
    cases found
    obtain ⟨⟨x, j⟩, sought, eq⟩ := Option.map_eq_some_iff.mp slot.symm
    cases eq
    obtain ⟨at', -⟩ := Compiler.lastIndexed?_some own
    exact .inl ⟨context.placed.locals s (Array.mem_of_getElem? at'), x, sought⟩
  | none =>
    rw [own] at found slot
    obtain ⟨at', -⟩ := Compiler.lastIndexed?_some found
    exact .inr ⟨context.placed.globals s (Array.mem_of_getElem? at'),
      Option.map_eq_none_iff.mp slot.symm, found⟩

theorem Context.unknown (context : Context w c Γ) (absent : c.varSymbol? n = none) :
    seek n (flat Γ) = none ∧ lastIndexed? c.globals n = none := by
  have slot := context.slot n
  unfold Compiler.varSymbol? at absent
  cases own : lastIndexed? c.locals n with
  | some p =>
    rw [own] at absent
    cases absent
  | none =>
    rw [own] at absent slot
    exact ⟨Option.map_eq_none_iff.mp slot.symm, absent⟩

/-! ### The invariant -/

/-- A statement of the kinds that the evaluator and the machine execute alike, inside a function
(`k`) or outside of all. -/
def alike (k : Bool) (s : Stmt) : Bool :=
  Compiler.inner k s && !s.isCount && s.exprsAll (fun e => !e.isLogical) && s.endsPlainly &&
    s.loopsPlainly

/-- The code of a declared function, which was compiled between two states. -/
structure FuncCode (w : World) (clo : Closure) (c c' : Compiler) : Prop where
  scope : clo.scope = 0
  top : AtTop c
  emits : Emits (.stmts clo.body.stmts)
    ((c.funcStart clo.name clo.params.length).opened.withParams clo.params) c'
  begins : c'.closed.funcEnd.Begins w.code
  placed : Placed c
  globals : ∀ {n p}, lastIndexed? c.globals n = some p → lastIndexed? w.globals n = some p
  functions : ∀ f ∈ (c.declared clo.name clo.params.length).functions, Declared w f
  alike : Stmt.allOf (alike true) clo.body.stmts = true
  /-- What the function assigns to is known in it, or is no global at all. -/
  settled : ∀ n ∈ clo.body.assigned, n ∉ clo.params.map Param.name →
    lastIndexed? c.globals n = none → ¬ w.Top n

/-- The code of a function does not change when globals and functions are added. -/
theorem FuncCode.extend {clo : Closure} {globals : Array Symbol} {funcs : Table (Option Closure)}
    (code : FuncCode w clo c c')
    (more : ∀ {n p}, lastIndexed? w.globals n = some p → lastIndexed? globals n = some p)
    (keep : ∀ {s}, Declared w s → Declared { w with globals, funcs } s) :
    FuncCode { w with globals, funcs } clo c c' where
  scope := code.scope
  top := code.top
  emits := code.emits
  begins := code.begins
  placed := code.placed
  globals := fun found => more (code.globals found)
  functions := fun s mem => keep (code.functions s mem)
  alike := code.alike
  settled := code.settled

/-- Labels are found, and functions have code. -/
structure World.Ok (w : World) : Prop where
  located : Located w.code w.labels
  funcs : ∀ {n clo}, w.funcs.lookup? n = some (some clo) →
    clo.name = n ∧ ∃ c c', FuncCode w clo c c'
  top : ∀ {n}, lastIndexed? w.globals n ≠ none → w.Top n

/-- The evaluator and the machine at the same place of a program: `low` are the cells below those of
the running call. -/
structure Tied (w : World) (c : Compiler) (Γ : List Layer) (f : Forest Value Closure)
    (gl : List (Slot × Cell)) (low : Array Cell) (fr : List Frame) : Prop where
  context : Context w c Γ
  linked : Linked f (Knows c.globals) Γ
  rooted : Rooted w f gl
  base : BaseOf fr low.size

variable {low : Array Cell} {fr : List Frame}

theorem Tied.same (tied : Tied w c Γ f gl low fr) (same : Compiler.SameSymbols c c') :
    Tied w c' Γ f gl low fr :=
  ⟨tied.context.same same, same.globals ▸ tied.linked, tied.rooted, tied.base⟩

/-- After an expression, which has changed at most globals. -/
theorem Tied.after (tied : Tied w c Γ f gl low fr) (keeps : Keeps [] f f')
    (rooted : Rooted w f' gl') : Tied w c Γ f' gl' low fr :=
  ⟨tied.context, tied.linked.keeps tied.rooted.around keeps (by simp), rooted, tied.base⟩

theorem Tied.chain (tied : Tied w c Γ f gl low fr) : ∃ is, ids Γ = top Γ :: is ∧
    f.Chain (top Γ :: is) := by
  obtain ⟨is, eq⟩ := ids_eq_top Γ
  exact ⟨is, eq, eq ▸ tied.linked.chain tied.rooted.around⟩

theorem Tied.holder?_eq (tied : Tied w c Γ f gl low fr) (n : String) :
    f.holder? (top Γ) n = homeIn f (ids Γ) n := by
  obtain ⟨is, eq, chain⟩ := tied.chain
  rw [chain.holder?_eq, eq]
  rfl

theorem Tied.getFunc_eq (tied : Tied w c Γ f gl low fr) (n : String) :
    f.getFunc (top Γ) n = (w.funcs.lookup? n).join := by
  have chain := tied.linked.chain tied.rooted.around
  have found : f.getFunc _ n = _ := chain.getFunc_eq tied.rooted.funcs fun j mem fs funcs =>
    tied.rooted.inner funcs (tied.linked.scope_ne_zero mem)
  cases Γ with
  | nil => exact found
  | cons L Γ => exact found

theorem Tied.getVar_eq {h : Nat} (tied : Tied w c Γ f gl low fr)
    (home : homeIn f (ids Γ) n = some h) (entry : f.bound? h n = some (some v)) :
    f.getVar (top Γ) n = some v := by
  obtain ⟨is, eq, chain⟩ := tied.chain
  refine chain.getVar_eq ?_ ((tied.holder?_eq n).trans home) entry
  intro i none
  obtain ⟨v, eq, -⟩ := tied.rooted.honest none
  cases eq

/-- A variable of a layer. -/
theorem Tied.getVar_local (tied : Tied w c Γ f gl low fr) (found : seek n (flat Γ) = some (x, i)) :
    f.getVar (top Γ) n = some x.value ∧ x.value.Honest := by
  obtain ⟨-, home, entry⟩ := tied.linked.home found
  obtain ⟨v, eq, honest⟩ := tied.rooted.honest entry
  cases eq
  exact ⟨tied.getVar_eq home entry, honest⟩

/-- A global that no layer hides. -/
theorem Tied.getVar_global (tied : Tied w c Γ f gl low fr) (none : seek n (flat Γ) = none)
    (known : lastIndexed? c.globals n = some (s, i)) :
    ∃ v, f.getVar (top Γ) n = some v ∧ v.Honest ∧ globalAt gl i = some (.value v) := by
  obtain ⟨v, entry, held⟩ := tied.rooted.held (tied.context.globals known)
  obtain ⟨v', eq, honest⟩ := tied.rooted.honest entry
  cases eq
  have home : homeIn f (ids Γ) n = some 0 := by
    rw [tied.linked.home_global none (by rw [Knows, known]; nofun)]
    exact homeIn_cons_of_binds (Forest.binds_of_bound entry)
  exact ⟨v, tied.getVar_eq home entry, honest, held⟩

end ScriptLang.Simulation
