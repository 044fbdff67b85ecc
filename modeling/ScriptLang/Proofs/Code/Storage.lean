import Mathlib
import ScriptLang.Machine.Run
import ScriptLang.Proofs.Code.Sites
import ScriptLang.Proofs.Parse.Sound

/-!
Where the compiler keeps the variables of a program.

At every site the symbols of the compiler are the variables in scope (`Models`), so a name is looked
up to its latest variable. The compiler addresses a symbol of depth zero as a global and any other
as a cell. This is where the value is, and no two variables share an address, except for what
`local` defines outside of all blocks: it is on the stack, and is addressed as the global of the
same index (`addresses_apart`).
-/

namespace ScriptLang.Compiler

variable {c c₁ c' : Compiler} {vs : Vars} {x : String}

/-! ### Addresses -/

/-- The address that the compiler uses for a symbol with an index. -/
def addressOf (s : Symbol) (i : Nat) : Address := if s.depth = 0 then .global i else .cell i

/-- No two symbols share an address, except for a local of depth zero and the global of the same
index. -/
structure Apart (c : Compiler) : Prop where
  locals : ∀ {i j : Nat} {s t}, c.locals[i]? = some s → c.locals[j]? = some t → i ≠ j →
    addressOf s i ≠ addressOf t j
  globals : ∀ {i j : Nat} {s t}, c.globals[i]? = some s → c.globals[j]? = some t → i ≠ j →
    addressOf s i ≠ addressOf t j
  mixed : ∀ {i j : Nat} {s t}, c.locals[i]? = some s → c.globals[j]? = some t →
    (addressOf s i = addressOf t j ↔ s.depth = 0 ∧ i = j)

/-- The instruction that loads what is kept at an address. -/
def Address.load : Address → Instr
  | .global i => .loadGlobal (.index i)
  | .cell i => .loadLocal (.index i)

/-- The instruction that makes the top of the stack the value of a new variable: a store, or a note
that it stays where it is. -/
def Address.put (x : String) : Address → Instr
  | .global i => .storeGlobal (.index i)
  | .cell i => .setSlot (slotNote i x)

/-- The variable was defined by `local` outside of all blocks. -/
def Var.stray (v : Var) : Bool :=
  match v.address with
  | .global _ => false
  | .cell _ => v.outside

theorem addressOf_ne {i j : Nat} (s t : Symbol) (ne : i ≠ j) : addressOf s i ≠ addressOf t j := by
  unfold addressOf
  by_cases top : s.depth = 0 <;> by_cases top' : t.depth = 0 <;> simp [top, top', ne]

/-- The globals of a state are of depth zero. -/
def Flat (c : Compiler) : Prop := ∀ s ∈ c.globals, s.depth = 0

theorem Flat.apart (flat : Flat c) : Apart c := by
  refine ⟨fun _ _ ne => addressOf_ne _ _ ne, fun _ _ ne => addressOf_ne _ _ ne, ?_⟩
  intro i j s t _ found
  have top := flat t (Array.mem_of_getElem? found)
  by_cases deep : s.depth = 0 <;> simp [addressOf, deep, top]

theorem Flat.grows (flat : Flat c) (grown : Grows c c') : Flat c' := by
  intro s mem
  by_cases top : c.depth = 0
  · obtain ⟨news, eq, all⟩ := grown.globals
    rw [eq] at mem
    rcases Array.mem_append.mp mem with mem | mem
    · exact flat s mem
    · exact (all s mem).trans top
  · rw [grown.inner top] at mem
    exact flat s mem

theorem Flat.emits {p : Part} (flat : Flat c) (h : Emits p c c') (layered : Layered c) :
    Flat c' := by
  have grown := h.grown
  cases p with
  | expr | exprs => exact flat.grows (grows_of_same grown.1 grown.2)
  | stmt | stmts | otherwise => exact flat.grows (grown layered)

/-! ### Symbols and variables -/

/-- The locals and the globals of a state are some variables, latest first. -/
inductive Models : List Var → Array Symbol → Array Symbol → Prop where
  | empty : Models [] #[] #[]
  | cell {list ls gs} (s : Symbol) : Models list ls gs →
      Models (⟨s.name, .cell ls.size, s.depth == 0⟩ :: list) (ls.push s) gs
  /-- A global is defined only if its name is not in scope. -/
  | slot {list ls gs} (s : Symbol) : Models list ls gs → (∀ v ∈ list, v.name ≠ s.name) →
      s.depth = 0 → Models (⟨s.name, .global gs.size, true⟩ :: list) ls (gs.push s)

variable {list : List Var} {ls gs : Array Symbol}

theorem Models.cells {outside : Bool} (h : Models list ls gs) :
    Vars.cells ⟨list, outside⟩ = ls.size := by
  unfold Vars.cells
  induction h with
  | empty => rfl
  | cell _ _ ih => simp [ih]
  | slot _ _ _ _ ih => simpa using ih

theorem Models.slots {outside : Bool} (h : Models list ls gs) :
    Vars.slots ⟨list, outside⟩ = gs.size := by
  unfold Vars.slots
  induction h with
  | empty => rfl
  | cell _ _ ih => simpa using ih
  | slot _ _ _ _ ih => simp [ih]

theorem Models.flat (h : Models list ls gs) : ∀ s ∈ gs, s.depth = 0 := by
  induction h with
  | empty => simp
  | cell _ _ ih => exact ih
  | slot _ _ _ top ih =>
    intro s mem
    rcases Array.mem_push.mp mem with mem | rfl
    · exact ih s mem
    · exact top

/-- A symbol is that of a variable, and is found at its index. -/
def Var.Is (v : Var) (s : Symbol) (i : Nat) : Prop :=
  (v.address = .cell i ∧ v.outside = (s.depth == 0)) ∨ (v.address = .global i ∧ s.depth = 0)

/-- The locals are searched first, and find the latest variable of a name. -/
theorem Models.lookup (h : Models list ls gs) (x : String) :
    match list.find? (·.name == x) with
    | none => lastIndexed? ls x = none ∧ lastIndexed? gs x = none
    | some v => ∃ s i, v.Is s i ∧ (lastIndexed? ls x = some (s, i) ∨
        lastIndexed? ls x = none ∧ lastIndexed? gs x = some (s, i)) := by
  induction h with
  | empty => exact ⟨rfl, rfl⟩
  | cell s _ ih =>
    rw [List.find?_cons, lastIndexed?_push]
    by_cases same : s.name = x
    · simp only [same, beq_self_eq_true, if_true]
      exact ⟨s, _, .inl ⟨rfl, rfl⟩, .inl rfl⟩
    · simp only [beq_eq_false_iff_ne.mpr same, if_neg same]
      exact ih
  | @slot list ls gs s older new top ih =>
    rw [List.find?_cons, lastIndexed?_push]
    by_cases same : s.name = x
    · -- No older variable has the name, so no local has it either.
      have absent : list.find? (·.name == x) = none := by
        rw [List.find?_eq_none]
        intro v mem
        simpa [← same] using new v mem
      rw [absent] at ih
      simp only [same, beq_self_eq_true, if_true]
      exact ⟨s, _, .inr ⟨rfl, top⟩, .inr ⟨ih.1, rfl⟩⟩
    · simp only [beq_eq_false_iff_ne.mpr same, if_neg same]
      exact ih

/-- The variables in scope are those that the compiler knows. -/
structure Vars.Fits (vs : Vars) (c : Compiler) : Prop where
  models : Models vs.list c.locals c.globals
  outside : vs.outside = (c.depth == 0)

theorem Vars.Fits.find?_none (fits : vs.Fits c) (absent : c.varSymbol? x = none) :
    vs.find? x = none := by
  have found := fits.models.lookup x
  rw [varSymbol?_eq_none] at absent
  unfold Vars.find?
  cases latest : vs.list.find? (·.name == x) with
  | none => rfl
  | some v =>
    rw [latest] at found
    obtain ⟨s, i, -, inner | ⟨-, outer⟩⟩ := found
    · simp [absent.1] at inner
    · simp [absent.2] at outer

/-- A name that the compiler knows refers to the latest variable. -/
theorem Vars.Fits.find?_some {s : Symbol} {i : Nat} (fits : vs.Fits c)
    (known : c.varSymbol? x = some (s, i)) : ∃ v, vs.find? x = some v ∧ v.Is s i := by
  have found := fits.models.lookup x
  unfold Vars.find?
  unfold varSymbol? at known
  cases latest : vs.list.find? (·.name == x) with
  | none =>
    rw [latest] at found
    simp [found.1, found.2] at known
  | some v =>
    rw [latest] at found
    obtain ⟨t, j, is, inner | ⟨none, outer⟩⟩ := found
    · rw [inner] at known
      cases known
      exact ⟨v, rfl, is⟩
    · rw [none] at known
      cases outer.symm.trans known
      exact ⟨v, rfl, is⟩

/-! ### Sites -/

theorem Vars.Fits.same (fits : vs.Fits c) (same : SameSymbols c c') : vs.Fits c' := by
  refine ⟨?_, ?_⟩
  · rw [same.locals, same.globals]
    exact fits.models
  · rw [same.depth]
    exact fits.outside

theorem Vars.Fits.opened (fits : vs.Fits c) (layered : Layered c) : vs.inside.Fits c.opened := by
  refine ⟨fits.models, ?_⟩
  have nonneg := layered.nonneg
  change false = (c.depth + 1 == 0)
  rw [eq_comm, beq_eq_false_iff_ne]
  omega

theorem Vars.Fits.withLocal (fits : vs.Fits c) (x : String) :
    (vs.withCell x).Fits (c.withLocal x) := by
  refine ⟨?_, fits.outside⟩
  have cells : vs.cells = c.locals.size := fits.models.cells
  rw [Vars.withCell, cells, fits.outside]
  exact .cell ⟨x, false, c.depth, 0⟩ fits.models

theorem Vars.Fits.withParams (fits : vs.Fits c) (ps : List Param) :
    (vs.withParams ps).Fits (c.withParams ps) := by
  induction ps generalizing vs c with
  | nil => exact fits
  | cons p ps ih => exact ih (fits.withLocal p.name)

theorem Vars.Fits.withGlobal (fits : vs.Fits c) (new : vs.find? x = none) (top : c.depth = 0) :
    (vs.withSlot x).Fits (c.withGlobal x) := by
  refine ⟨?_, fits.outside⟩
  have slots : vs.slots = c.globals.size := fits.models.slots
  have outside : vs.outside = true := by simp [fits.outside, top]
  rw [Vars.withSlot, slots, outside]
  refine .slot ⟨x, false, c.depth, 0⟩ fits.models ?_ top
  simpa [Vars.find?] using new

theorem Vars.Fits.stores (fits : vs.Fits c) (h : Stores c x c') : (vs.assigned x).Fits c' := by
  unfold Vars.assigned
  cases h with
  | newGlobal absent top =>
    have new := fits.find?_none absent
    simp only [new, fits.outside, top]
    exact fits.withGlobal new top
  | newLocal absent deep =>
    have new := fits.find?_none absent
    simp only [new, fits.outside, deep, beq_iff_eq]
    exact fits.withLocal x
  | global known | loc known =>
    obtain ⟨v, found, -⟩ := fits.find?_some known
    simp only [found]
    exact fits.same ⟨rfl, rfl, rfl, rfl⟩

theorem Vars.Fits.stmt {s : Stmt} (fits : vs.Fits c) (h : Emits (.stmt s) c c')
    (layered : Layered c) : (vs.after s).Fits c' := by
  cases s with
  | assign =>
    cases h with
    | assign value name stores =>
      rw [Vars.after, name]
      exact (fits.same value.grown.1.symbols).stores stores
  | assignLocal =>
    cases h with
    | assignLocal value name =>
      rw [Vars.after, name]
      exact (fits.same value.grown.1.symbols).withLocal _
  | branch => exact fits.same (h.branch_scope layered)
  | loop => exact fits.same (h.loop_scope layered)
  | func =>
    cases h with
    | func _ _ body =>
      obtain ⟨locals, globals, -, depth⟩ := func_scope layered body
      exact ⟨locals ▸ globals ▸ fits.models, depth ▸ fits.outside⟩
  | count =>
    cases h
    exact fits
  | print =>
    cases h with
    | print value | println _ value => exact fits.same (value.grown.1.add _).symbols
  | call =>
    cases h with
    | callStmt value => exact fits.same (value.grown.1.add _).symbols
  | ret =>
    cases h with
    | ret value => exact fits.same (value.grown.1.add _).symbols

theorem Turn.fits {a b : Site} (turn : Turn a b) (layered : Layered a.state)
    (fits : a.vars.Fits a.state) : b.vars.Fits b.state := by
  cases turn with
  | same same vars =>
    rw [vars]
    exact fits.same same
  | inside same vars =>
    rw [vars]
    exact (fits.opened layered).same same
  | after _ emits vars =>
    rw [vars]
    exact fits.stmt emits layered
  | @enters name ps _ _ _ state vars =>
    rw [vars, state]
    have inner : a.vars.inside.Fits (a.state.funcStart name ps.length).opened :=
      ⟨fits.models, (fits.opened layered).outside⟩
    exact inner.withParams ps

/-! ### Whole programs -/

/-- The site of a whole program. -/
def root (b : Block) : Site := ⟨.stmts b.stmts, .empty, first⟩

variable {b : Block} {a : Site}

theorem fits_root (b : Block) : (root b).vars.Fits (root b).state := ⟨.empty, rfl⟩

theorem layered_root (b : Block) : Layered (root b).state := by
  refine ⟨Int.le_refl _, ?_, ?_⟩ <;> simp [root, first, add, empty]

theorem Reaches.fits (h : Reaches (root b) a) (emits : Emits (.stmts b.stmts) first c) :
    a.vars.Fits a.state :=
  h.keeps emits (layered_root b) (fits_root b) fun _ _ _ layered turn fits =>
    turn.fits layered fits

/-- The states that the compiler goes through at a site itself: the first, the last, and those
between the parameters of a function. In all others the symbols are as in one of these. -/
inductive Site.Passes (a : Site) : Compiler → Prop where
  | start : a.Passes a.state
  | finish {d} : a.part.compile a.state = .ok () d → a.Passes d
  | params {name ps body line} (n : Nat) : a.part = .stmt (.func name ps body line) →
      a.Passes ((a.state.funcStart name ps.length).opened.withParams (ps.take n))

theorem Site.Passes.flat {a' d : Compiler} (h : a.Passes d) (flat : Flat a.state)
    (emits : Emits a.part a.state a') (layered : Layered a.state) : Flat d := by
  cases h with
  | start => exact flat
  | finish compiled =>
    obtain rfl := emits.unique compiled
    exact flat.emits emits layered
  | @params name ps _ _ n =>
    have head : Flat (a.state.funcStart name ps.length).opened := flat
    exact head.grows (grows_withParams _ _)

/-- A read loads from the address where the value is, unless it was put on the stack outside of all
blocks. -/
theorem Vars.Fits.reads {line : Line} (fits : vs.Fits c)
    (emits : Emits (.expr (.name x line)) c c') :
    ∃ v i, vs.find? x = some v ∧ c' = c.add i ∧ (v.stray = false → i = v.address.load) ∧
      (v.stray = true → ∃ k, v.address = .cell k ∧ i = .loadGlobal (.index k)) := by
  cases emits with
  | name loads =>
    cases loads with
    | @global s k known top =>
      obtain ⟨v, found, ⟨cell, outside⟩ | ⟨slot, -⟩⟩ := fits.find?_some known
      · refine ⟨v, _, found, rfl, ?_, fun _ => ⟨k, cell, rfl⟩⟩
        simp [Var.stray, cell, outside, top]
      · refine ⟨v, _, found, rfl, fun _ => by rw [slot, Address.load], ?_⟩
        simp [Var.stray, slot]
    | @loc s k known deep =>
      obtain ⟨v, found, ⟨cell, outside⟩ | ⟨-, top⟩⟩ := fits.find?_some known
      · refine ⟨v, _, found, rfl, fun _ => by rw [cell, Address.load], ?_⟩
        simp [Var.stray, cell, outside, deep]
      · exact absurd top deep

theorem Vars.Fits.puts_cell (fits : vs.Fits c) (x : String) :
    ∃ d : Compiler, c.withLocal x = d.add ((Address.cell vs.cells).put x) := by
  have cells : vs.cells = c.locals.size := fits.models.cells
  rw [cells]
  exact ⟨_, rfl⟩

theorem Vars.Fits.puts_slot (fits : vs.Fits c) (x : String) :
    ∃ d : Compiler, c.withGlobal x = d.add ((Address.global vs.slots).put x) := by
  have slots : vs.slots = c.globals.size := fits.models.slots
  rw [slots]
  exact ⟨_, rfl⟩

theorem ne_self_cons {α : Type} (v : α) (list : List α) : list ≠ v :: list := by
  intro same
  simpa using congrArg List.length same

/-- A statement that defines a variable puts its value at the address of the variable. -/
theorem Vars.Fits.defines {s : Stmt} {v : Var} (fits : vs.Fits c) (h : Emits (.stmt s) c c')
    (new : (vs.after s).list = v :: vs.list) :
    ∃ d : Compiler, c' = d.add (v.address.put v.name) := by
  cases h with
  | @assign _ _ _ x _ c₁ _ value name stores =>
    have fits₁ := fits.same value.grown.1.symbols
    rw [Vars.after, name] at new
    simp only [Option.elim, Vars.assigned] at new
    cases stores with
    | newGlobal absent top =>
      simp only [fits₁.find?_none absent, fits₁.outside, top] at new
      obtain ⟨rfl, -⟩ := List.cons.inj new
      exact fits₁.puts_slot x
    | newLocal absent deep =>
      simp only [fits₁.find?_none absent, fits₁.outside, beq_eq_false_iff_ne.mpr deep] at new
      obtain ⟨rfl, -⟩ := List.cons.inj new
      exact fits₁.puts_cell x
    | global known | loc known =>
      obtain ⟨w, found, -⟩ := fits₁.find?_some known
      simp only [found] at new
      exact absurd new (ne_self_cons v _)
  | @assignLocal _ _ _ x _ c₁ value name =>
    rw [Vars.after, name] at new
    obtain ⟨rfl, -⟩ := List.cons.inj new
    exact (fits.same value.grown.1.symbols).puts_cell x
  | print | println | branch | loop | count | func | callStmt | ret =>
    exact absurd new (ne_self_cons v _)

/-- In a program that compiles, the addresses of the variables are apart but for those that `local`
defines outside of all blocks; and but for these, every read of a name loads from the address that
the value of its latest variable was put at. -/
theorem addresses_apart {tokens : List Token} {cur : Cursor}
    {shorter : cur.size < tokens.length + 1} (parsed : Parse.program tokens = .ok b cur shorter)
    (compiled : generate (.block b) empty = .ok () c) (reached : Reaches (root b) a) :
    (∀ d, a.Passes d → d.Apart) ∧
      (∀ x line, a.part = .expr (.name x line) →
        ∃ v i, a.vars.find? x = some v ∧ a.part.compile a.state = .ok () (a.state.add i) ∧
          (v.stray = false → i = v.address.load) ∧
          (v.stray = true → ∃ k, v.address = .cell k ∧ i = .loadGlobal (.index k))) ∧
      ∀ s v, a.part = .stmt s → (a.vars.after s).list = v :: a.vars.list →
        ∃ d : Compiler, a.part.compile a.state = .ok () (d.add (v.address.put v.name)) := by
  obtain ⟨ts, _, derived⟩ := Parse.block_derives ⟨shorter, parsed⟩
  have nested : b.allExprs Expr.nested = true := derived.nested fun _ _ eq => congrArg _ eq
  obtain ⟨c', whole, rfl⟩ := emits_of_generate nested compiled
  obtain ⟨a', inner⟩ := reached.reached whole (layered_root b)
  have fits := reached.fits whole
  refine ⟨?_, ?_, ?_⟩
  · intro d passes
    exact (passes.flat fits.models.flat inner.emits inner.layered).apart
  · intro x line part
    have emits := inner.emits
    rw [inner.emits.compiles]
    rw [part] at emits
    obtain ⟨v, i, found, rfl, plain, stray⟩ := fits.reads emits
    exact ⟨v, i, found, rfl, plain, stray⟩
  · intro s v part new
    have emits := inner.emits
    rw [inner.emits.compiles]
    rw [part] at emits
    obtain ⟨d, rfl⟩ := fits.defines emits new
    exact ⟨d, rfl⟩

/-- The tokens of a block that defines a variable from a global and reads it. -/
def inBlock : List Token :=
  [⟨.identifier, "y", 1⟩, ⟨.assign, ":=", 1⟩, ⟨.kwTrue, "true", 1⟩, ⟨.kwIf, "if", 2⟩,
    ⟨.identifier, "y", 2⟩, ⟨.kwThen, "then", 2⟩, ⟨.kwLocal, "local", 3⟩, ⟨.identifier, "x", 3⟩,
    ⟨.assign, ":=", 3⟩, ⟨.identifier, "y", 3⟩, ⟨.kwPrintln, "println", 4⟩,
    ⟨.identifier, "x", 4⟩, ⟨.kwEnd, "end", 5⟩]

/-- The program that the tokens write. -/
def inBlockTree : Block :=
  .mk [.assign (.name "y" 1) (.bool true 1) 1,
    .branch (.name "y" 2)
      (.mk [.assignLocal (.name "x" 3) (.name "y" 3) 3, .print (.name "x" 4) (.str "\n") 4] 4)
      none 5] 5

/-- The read of the variable. -/
def inBlockRead : Site where
  part := .expr (.name "x" 4)
  vars := ⟨[⟨"x", .cell 0, false⟩, ⟨"y", .global 0, true⟩], false⟩
  state := ⟨#[.label "START", .push (.value (.bool true)), .storeGlobal (.index 0),
      .loadGlobal (.index 0), .jumpIfZero "LBL2", .label "LBL1", .loadGlobal (.index 0),
      .setSlot (.str "0 (x)")],
    #[⟨"x", false, 1, 0⟩], #[⟨"y", false, 0, 0⟩], #[], 1, 3⟩

theorem inBlock_apart :
    (∃ cur shorter, Parse.program inBlock = .ok inBlockTree cur shorter) ∧
      (∃ c, generate (.block inBlockTree) empty = .ok () c) ∧
      Reaches (root inBlockTree) inBlockRead ∧ inBlockRead.state.Apart ∧
      ∃ v, inBlockRead.vars.find? "x" = some v ∧ v.address = .cell 0 ∧
        expr (.name "x" 4) inBlockRead.state = .ok () (inBlockRead.state.add v.address.load) := by
  have parsed : Parse.program inBlock = .ok inBlockTree ⟨inBlock.reverse, []⟩ (by decide) := by
    cbv
  have compiled : generate (.block inBlockTree) empty = .ok () ⟨#[.label "START",
      .push (.value (.bool true)), .storeGlobal (.index 0), .loadGlobal (.index 0),
      .jumpIfZero "LBL2", .label "LBL1", .loadGlobal (.index 0), .setSlot (.str "0 (x)"),
      .loadLocal (.index 0), .println, .pop, .jump "LBL3", .label "LBL2", .label "LBL3", .halt],
      #[], #[⟨"y", false, 0, 0⟩], #[], 0, 3⟩ := by
    cbv
  have assigned : stmt (.assign (.name "y" 1) (.bool true 1) 1) first = .ok ()
      ⟨#[.label "START", .push (.value (.bool true)), .storeGlobal (.index 0)],
        #[], #[⟨"y", false, 0, 0⟩], #[], 0, 0⟩ := by
    cbv
  have reached : Reaches (root inBlockTree) inBlockRead :=
    .child (.rest assigned) <| .child .first <| .child (.thenBlock rfl) <|
      .child (.rest rfl) <| .child .first <| .child .printed (.refl _)
  obtain ⟨apart, reads, -⟩ := addresses_apart parsed compiled reached
  obtain ⟨v, i, found, loaded, plain, -⟩ := reads "x" 4 rfl
  obtain rfl : v = ⟨"x", .cell 0, false⟩ := by
    cases found
    rfl
  rw [plain rfl] at loaded
  exact ⟨⟨_, _, parsed⟩, ⟨_, compiled⟩, reached, apart _ .start, _, found, rfl, loaded⟩

/-- The tokens of a program that defines a global, and a variable with `local` outside of all
blocks, and reads the second. -/
def onTop : List Token :=
  [⟨.identifier, "y", 1⟩, ⟨.assign, ":=", 1⟩, ⟨.kwTrue, "true", 1⟩, ⟨.kwLocal, "local", 1⟩,
    ⟨.identifier, "x", 1⟩, ⟨.assign, ":=", 1⟩, ⟨.kwFalse, "false", 1⟩,
    ⟨.kwPrintln, "println", 1⟩, ⟨.identifier, "x", 1⟩]

/-- The program that the tokens write. -/
def onTopTree : Block :=
  .mk [.assign (.name "y" 1) (.bool true 1) 1, .assignLocal (.name "x" 1) (.bool false 1) 1,
    .print (.name "x" 1) (.str "\n") 1] 1

/-- The read of the second variable. -/
def onTopRead : Site where
  part := .expr (.name "x" 1)
  vars := ⟨[⟨"x", .cell 0, true⟩, ⟨"y", .global 0, true⟩], true⟩
  state := ⟨#[.label "START", .push (.value (.bool true)), .storeGlobal (.index 0),
      .push (.value (.bool false)), .setSlot (.str "0 (x)")],
    #[⟨"x", false, 0, 0⟩], #[⟨"y", false, 0, 0⟩], #[], 0, 0⟩

/-- The two variables share an address, and the value of the first is read for the second. -/
theorem onTop_shares :
    (∃ cur shorter, Parse.program onTop = .ok onTopTree cur shorter) ∧
      Reaches (root onTopTree) onTopRead ∧
      onTopRead.state.locals[0]? = some ⟨"x", false, 0, 0⟩ ∧
      onTopRead.state.globals[0]? = some ⟨"y", false, 0, 0⟩ ∧
      addressOf ⟨"x", false, 0, 0⟩ 0 = addressOf ⟨"y", false, 0, 0⟩ 0 ∧
      onTopRead.vars.find? "x" = some ⟨"x", .cell 0, true⟩ ∧
      expr (.name "x" 1) onTopRead.state =
        .ok () (onTopRead.state.add (.loadGlobal (.index 0))) ∧
      ∃ c, generate (.block onTopTree) empty = .ok () c ∧
        (Machine.run 10 c.code.toList .empty).2.output = "true\n" := by
  have parsed : Parse.program onTop = .ok onTopTree ⟨onTop.reverse, []⟩ (by decide) := by
    cbv
  have compiled : generate (.block onTopTree) empty = .ok () ⟨#[.label "START",
      .push (.value (.bool true)), .storeGlobal (.index 0), .push (.value (.bool false)),
      .setSlot (.str "0 (x)"), .loadGlobal (.index 0), .println, .halt],
      #[⟨"x", false, 0, 0⟩], #[⟨"y", false, 0, 0⟩], #[], 0, 0⟩ := by
    cbv
  have reached : Reaches (root onTopTree) onTopRead :=
    .child (.rest rfl) <| .child (.rest rfl) <| .child .first <| .child .printed (.refl _)
  exact ⟨⟨_, _, parsed⟩, reached, rfl, rfl, rfl, rfl, rfl, _, compiled, by cbv⟩

end ScriptLang.Compiler
