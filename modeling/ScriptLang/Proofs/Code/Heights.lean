import ScriptLang.Proofs.Code.Growth
import ScriptLang.Proofs.Code.Symbols
import ScriptLang.Proofs.Machine.Points
import ScriptLang.Proofs.Machine.Start

/-!
The height of the stack at every point of compiled code.

Where the code of a state of the compiler ends, the running call has one cell for each local of the
state (`point`), and an expression adds one cell to those that are there. The proofs go backwards:
if it is safe to go on after a part, then it is safe to go on before it.
-/

namespace ScriptLang.Compiler

open Machine (Point Follows Onward Located)

variable {code : Array Instr} {labels : Labels} {Q Q' : Point → Prop} {c c₁ c₂ c' : Compiler}
  {h : Nat} {k : Bool}

/-- The point where the code of a state ends, with `h` cells. -/
def point (c : Compiler) (h : Nat) (k : Bool) : Point := ⟨c.code.size, h, c.globals.size, k, none⟩

theorem point_add (c : Compiler) (i : Instr) (h : Nat) (k : Bool) :
    (c.add i).point h k = ⟨c.code.size + 1, h, c.globals.size, k, none⟩ := by
  rw [point, size_add]
  rfl

theorem SameSymbols.point (same : SameSymbols c c') (h : Nat) (k : Bool) :
    c'.point h k = ⟨c'.code.size, h, c.globals.size, k, none⟩ := by
  rw [Compiler.point, same.globals]

/-! ### Known symbols -/

/-- Variables of depth zero are just the globals. -/
structure Placed (c : Compiler) : Prop where
  locals : ∀ s ∈ c.locals, s.depth ≠ 0
  globals : ∀ s ∈ c.globals, s.depth = 0

/-- Every known function can be entered: its label is at a point of `Q`. -/
def Entered (labels : Labels) (Q : Point → Prop) (c : Compiler) : Prop :=
  ∀ f ∈ c.functions, ∃ a g, labels.lookup? f.name = some a ∧ g ≤ c.globals.size ∧
    Q ⟨a, f.arity, g, true, none⟩

/-- Whatever the symbols of a state stand for is there when the machine comes to it. -/
structure Ready (labels : Labels) (Q : Point → Prop) (c : Compiler) : Prop where
  placed : Placed c
  entered : Entered labels Q c

theorem Placed.index (placed : Placed c) {x : String} {s : Symbol} {i : Nat}
    (found : c.varSymbol? x = some (s, i)) :
    (s.depth = 0 → i < c.globals.size) ∧ (s.depth ≠ 0 → i < c.locals.size) := by
  unfold varSymbol? at found
  split at found
  · rename_i p inner
    obtain rfl : p = (s, i) := by simpa using found
    obtain ⟨at', -⟩ := lastIndexed?_some inner
    obtain ⟨lt, -⟩ := Array.getElem?_eq_some_iff.mp at'
    exact ⟨fun top => absurd top (placed.locals s (Array.mem_of_getElem? at')), fun _ => lt⟩
  · obtain ⟨at', -⟩ := lastIndexed?_some found
    obtain ⟨lt, -⟩ := Array.getElem?_eq_some_iff.mp at'
    exact ⟨fun _ => lt, fun deep => absurd (placed.globals s (Array.mem_of_getElem? at')) deep⟩

theorem Ready.same (ready : Ready labels Q c) (same : SameSymbols c c') : Ready labels Q c' := by
  refine ⟨⟨?_, ?_⟩, ?_⟩
  · rw [same.locals]
    exact ready.placed.locals
  · rw [same.globals]
    exact ready.placed.globals
  · unfold Entered
    rw [same.functions, same.globals]
    exact ready.entered

theorem Ready.opened (ready : Ready labels Q c) : Ready labels Q c.opened :=
  ⟨⟨ready.placed.locals, ready.placed.globals⟩, ready.entered⟩

theorem Ready.mono (ready : Ready labels Q c) (sub : ∀ q, Q q → Q' q) : Ready labels Q' c := by
  refine ⟨ready.placed, ?_⟩
  intro f mem
  obtain ⟨a, g, found, le, entry⟩ := ready.entered f mem
  exact ⟨a, g, found, le, sub _ entry⟩

/-- Inside a block more symbols may become known. -/
theorem Ready.grows (ready : Ready labels Q c) (grown : Grows c c') (deep : c.depth ≠ 0)
    (functions : c'.functions = c.functions) : Ready labels Q c' := by
  have globals := grown.inner deep
  refine ⟨⟨?_, ?_⟩, ?_⟩
  · obtain ⟨news, eq, all⟩ := grown.locals
    intro s mem
    rw [eq] at mem
    rcases Array.mem_append.mp mem with mem | mem
    · exact ready.placed.locals s mem
    · rw [all s mem]
      exact deep
  · rw [globals]
    exact ready.placed.globals
  · unfold Entered
    rw [functions, globals]
    exact ready.entered

/-! ### Parts -/

/-- Some instructions that each remove a cell. -/
theorem onward_pops {a g : Nat} (n : Nat) (pops : ∀ j < n, code[a + j]? = some .pop)
    (next : Onward code labels Q ⟨a + n, h, g, k, none⟩) :
    Onward code labels Q ⟨a, h + n, g, k, none⟩ := by
  induction n generalizing a with
  | zero => exact next
  | succ n ih =>
    refine .step (.pop (pops 0 (Nat.succ_pos n)) (ih (a := a + 1) ?_ ?_))
    · intro j lt
      rw [Nat.add_right_comm, Nat.add_assoc]
      exact pops (j + 1) (Nat.succ_lt_succ lt)
    · rw [Nat.add_right_comm, Nat.add_assoc]
      exact next

/-- Leaving a block removes its locals from the stack. -/
theorem onward_closed (begins : c.closed.Begins code)
    (next : Onward code labels Q (c.closed.point c.closed.locals.size k)) :
    Onward code labels Q (c.point c.locals.size k) := by
  have le : c.closed.locals.size ≤ c.locals.size := size_dropDeeper_le _ _
  have height : c.locals.size =
      c.closed.locals.size + (c.locals.size - c.closed.locals.size) := by omega
  rw [point, height]
  apply onward_pops _ fun j lt => fetch_closed begins lt
  rw [← size_closed]
  exact next

/-- Parameters are already on the stack. -/
theorem onward_params (ps : List Param) (begins : (c.withParams ps).Begins code)
    (next : Onward code labels Q ((c.withParams ps).point h k)) :
    Onward code labels Q (c.point h k) := by
  induction ps generalizing c with
  | nil => exact next
  | cons p ps ih =>
    have here : (c.withLocal p.name).Begins code :=
      begins.of_prefix (grows_withParams (c.withLocal p.name) ps).code
    have next := ih begins next
    rw [withLocal, point_add] at next
    exact .step (.setSlot here.fetch next)

/-- A statement that stands inside a function (`k`) or outside of all. -/
def inner (k : Bool) (s : Stmt) : Bool := !s.isFunc && (k || !s.isRet)

theorem inner_true : inner true = fun s => !s.isFunc := by
  funext s
  simp [inner]

theorem inner_false : inner false = fun s => !s.isFunc && !s.isRet := by
  funext s
  simp [inner]

/-- Between two states the code adds `n` cells: it is safe before it if it is safe after it. -/
def Adds (code : Array Instr) (labels : Labels) (n : Nat) (c c' : Compiler) : Prop :=
  ∀ {Q h k}, c.locals.size ≤ h → Ready labels Q c → c'.Begins code →
    Onward code labels Q (c'.point (h + n) k) → Onward code labels Q (c.point h k)

/-- Between two states the code leaves just the locals on the stack. -/
def Passes (code : Array Instr) (labels : Labels) (k : Bool) (c c' : Compiler) : Prop :=
  ∀ {Q}, Ready labels Q c → c'.Begins code → Onward code labels Q (c'.point c'.locals.size k) →
    Onward code labels Q (c.point c.locals.size k)

/-- What is to be shown of the code of a part. -/
def Part.Verified (code : Array Instr) (labels : Labels) : Part → Compiler → Compiler → Prop
  | .expr _, c, c' => Adds code labels 1 c c'
  | .exprs es, c, c' => Adds code labels es.length c c'
  | .stmt s, c, c' => ∀ {k}, s.all (inner k) = true → Layered c → Passes code labels k c c'
  | .stmts ss, c, c' => ∀ {k}, Stmt.allOf (inner k) ss = true → Layered c → c.depth ≠ 0 →
      Passes code labels k c c'
  | .otherwise o, c, c' => ∀ {k}, Block.allElse (inner k) o = true → Layered c →
      Passes code labels k c c'

theorem adds_operation {o : Instr} (left : Adds code labels 1 c c₁)
    (right : Adds code labels 1 c₁ c₂)
    (same : SameScope c c₁) (pre : c₁.code.toList <+: c₂.code.toList)
    (step : ∀ {Q h k}, (c₂.add o).Begins code → Onward code labels Q ((c₂.add o).point (h + 1) k) →
      Onward code labels Q (c₂.point (h + 2) k)) :
    Adds code labels 1 c (c₂.add o) := by
  intro Q h k le ready begins next
  have begins₂ := begins.of_add
  have le₁ : c₁.locals.size ≤ h + 1 := by
    rw [same.locals]
    omega
  refine left le ready (begins₂.of_prefix pre) ?_
  exact right le₁ (ready.same same.symbols) begins₂ (step begins next)

/-- A statement that uses the value of an expression. -/
theorem passes_use (value : Adds code labels 1 c c₁) (same : SameScope c c₁)
    (pre : c₁.code.toList <+: c₂.code.toList)
    (step : ∀ {Q}, Ready labels Q c₁ → c₂.Begins code →
      Onward code labels Q (c₂.point c₂.locals.size k) →
      Onward code labels Q (c₁.point (c₁.locals.size + 1) k)) :
    Passes code labels k c c₂ := by
  intro Q ready begins next
  have used := step (ready.same same.symbols) begins next
  rw [same.locals] at used
  exact value (Nat.le_refl _) ready (begins.of_prefix pre) used

theorem passes_withLocal {x : String} (begins : (c.withLocal x).Begins code)
    (next : Onward code labels Q ((c.withLocal x).point (c.withLocal x).locals.size k)) :
    Onward code labels Q (c.point (c.locals.size + 1) k) := by
  have size : (c.withLocal x).locals.size = c.locals.size + 1 := Array.size_push _
  rw [size, withLocal, point_add] at next
  exact .step (.setSlot begins.fetch next)

theorem passes_stores {x : String} (h : Stores c x c') (ready : Ready labels Q c)
    (begins : c'.Begins code) (next : Onward code labels Q (c'.point c'.locals.size k)) :
    Onward code labels Q (c.point (c.locals.size + 1) k) := by
  cases h with
  | newGlobal =>
    have size : (c.globals.push ⟨x, false, c.depth, 0⟩).size = c.globals.size + 1 :=
      Array.size_push _
    rw [withGlobal, point_add, size] at next
    exact .step (.newGlobal begins.fetch next)
  | newLocal => exact passes_withLocal begins next
  | global found top =>
    rw [point_add] at next
    exact .step (.storeGlobal begins.fetch ((ready.placed.index found).1 top) next)
  | loc found deep =>
    rw [point_add] at next
    exact .step (.storeLocal begins.fetch ((ready.placed.index found).2 deep) next)

theorem Ready.stmt {s : Stmt} (ready : Ready labels Q c) (h : Emits (.stmt s) c c')
    (layered : Layered c) (deep : c.depth ≠ 0) (all : s.all (inner k) = true) :
    Ready labels Q c' := by
  have here := Stmt.holds_of_all all
  simp only [inner, Bool.and_eq_true, Bool.not_eq_true'] at here
  exact ready.grows (h.grown layered) deep ((h.kept layered).functions here.1)

/-- A block, with the instructions that remove its locals. -/
theorem passes_block {ss : List Stmt} (layered : Layered c) (grown : Grows c.opened c₁)
    (body : (Part.stmts ss).Verified code labels c.opened c₁) (all : Stmt.allOf (inner k) ss = true)
    (ready : Ready labels Q c) (begins : c₁.closed.Begins code)
    (next : Onward code labels Q (c₁.closed.point c.locals.size k)) :
    Onward code labels Q (c.point c.locals.size k) := by
  have deep : c.opened.depth ≠ 0 := by
    have nonneg := layered.nonneg
    change c.depth + 1 ≠ 0
    omega
  rw [← (closed_scope layered grown).locals] at next
  exact body all layered.opened deep ready.opened
    (begins.of_prefix (prefix_closed c₁)) (onward_closed begins next)

section
variable {test : Expr} {b : Block} {c₃ : Compiler}

theorem passes_branch (located : Located code labels) {o : Option Block}
    (test : Emits (.expr test) c c₁) (body : Emits (.stmts b.stmts) c₁.thenStart.opened c₂)
    (rest : Emits (.otherwise o) (c₂.closed.elseStart c₁.labels) c₃)
    (tested : Adds code labels 1 c c₁)
    (verified : (Part.stmts b.stmts).Verified code labels c₁.thenStart.opened c₂)
    (verified' : (Part.otherwise o).Verified code labels (c₂.closed.elseStart c₁.labels) c₃)
    (all : Stmt.allOf (inner k) b.stmts = true) (all' : Block.allElse (inner k) o = true)
    (layered : Layered c) : Passes code labels k c (c₃.ending (c₁.labels + 3)) := by
  intro Q ready begins next
  have symbols₁ := test.grown.1.symbols.trans (thenStart_scope c₁)
  have layered₁ := symbols₁.layered layered
  have grown := body.grown layered₁.opened
  have symbols := symbols₁.trans (closed_scope layered₁ grown)
  have symbols₂ := symbols.trans (elseStart_scope _ c₁.labels)
  have layered₂ := symbols₂.layered layered
  have symbols₃ := symbols₂.trans (rest.otherwise_scope layered₂)
  have begins₂ : (c₂.closed.elseStart c₁.labels).Begins code :=
    begins.of_add.of_prefix (rest.grown layered₂).code
  have begins₁ : c₁.thenStart.Begins code :=
    begins₂.of_add.of_add.of_prefix (grown.code.trans (prefix_closed c₂))
  -- From the end of the statement backwards.
  have exit : Onward code labels Q (c₃.point c₃.locals.size k) := by
    rw [ending, point_add] at next
    exact .step (.label begins.fetch next)
  have other := verified' all' layered₂ (ready.same symbols₂) begins.of_add exit
  rw [symbols₂.locals] at other
  rw [symbols₃.locals, symbols₃.point] at exit
  have atElse : Onward code labels Q
      ((c₂.closed.add (.jump (labelName (c₁.labels + 3)))).point c.locals.size k) := by
    rw [elseStart, point_add] at other
    exact .step (.label begins₂.fetch other)
  have block : Onward code labels Q (c₂.closed.point c₁.thenStart.locals.size k) := by
    rw [symbols.point, symbols₁.locals]
    exact .step (.jump begins₂.of_add.fetch (located begins.fetch) exit)
  have atThen := passes_block layered₁ grown verified all (ready.same symbols₁)
    begins₂.of_add.of_add block
  rw [symbols₁.locals, thenStart, point_add] at atThen
  have jumped : Onward code labels Q
      (((c₁.takeLabels 3).add (.jumpIfZero (labelName (c₁.labels + 2)))).point c.locals.size k) :=
    .step (.label begins₁.fetch atThen)
  have globals : (c₂.closed.add (.jump (labelName (c₁.labels + 3)))).globals = c₁.globals :=
    symbols.globals.trans symbols₁.globals.symm
  rw [point_add] at jumped
  rw [point, globals] at atElse
  exact tested (Nat.le_refl _) ready begins₁.of_add.of_add
    (.step (.jumpIfZero begins₁.of_add.fetch (located begins₂.fetch) jumped atElse))

theorem passes_loop (located : Located code labels)
    (test : Emits (.expr test) c.loopStart c₁)
    (body : Emits (.stmts b.stmts) (c₁.bodyStart c.labels).opened c₂)
    (tested : Adds code labels 1 c.loopStart c₁)
    (verified : (Part.stmts b.stmts).Verified code labels (c₁.bodyStart c.labels).opened c₂)
    (all : Stmt.allOf (inner k) b.stmts = true) (layered : Layered c) :
    Passes code labels k c ((c₂.closed.goBack c.labels).ending (c.labels + 3)) := by
  intro Q ready begins next
  have symbols₁ := (loopStart_scope c).trans test.grown.1.symbols
  have symbols₂ := symbols₁.trans (bodyStart_scope _ c.labels)
  have layered₂ := symbols₂.layered layered
  have grown := body.grown layered₂.opened
  have symbols := symbols₂.trans (closed_scope layered₂ grown)
  have begins₂ : (c₁.bodyStart c.labels).Begins code :=
    begins.of_add.of_add.of_prefix (grown.code.trans (prefix_closed c₂))
  have begins₁ : c.loopStart.Begins code := begins₂.of_add.of_add.of_prefix test.grown.2
  have exit : Onward code labels Q ((c₂.closed.goBack c.labels).point c.locals.size k) := by
    rw [← symbols.locals]
    rw [ending, point_add] at next
    exact .step (.label begins.fetch next)
  have globals : (c₂.closed.goBack c.labels).globals = c₁.globals :=
    symbols.globals.trans symbols₁.globals.symm
  rw [point, globals] at exit
  -- The way back leads to the label in front of the test, where the loop is cut.
  refine .fix (E := (· = c.point c.locals.size k)) ?_ (.inl (.inr rfl))
  rintro _ rfl
  have old : ∀ q, Q q → Q q ∨ q = c.point c.locals.size k := fun _ => .inl
  have back : Onward code labels (fun q => Q q ∨ q = c.point c.locals.size k)
      (c₂.closed.point (c₁.bodyStart c.labels).locals.size k) := by
    rw [symbols.point, symbols₂.locals]
    exact .step (.jump begins.of_add.fetch (located begins₁.fetch) (.inl (.inr rfl)))
  have atBody := passes_block layered₂ grown verified all ((ready.same symbols₂).mono old)
    begins.of_add.of_add back
  rw [symbols₂.locals, bodyStart, point_add] at atBody
  have jumped : Onward code labels _
      ((c₁.add (.jumpIfZero (labelName (c.labels + 3)))).point c.locals.size k) :=
    .step (.label begins₂.fetch atBody)
  rw [point_add] at jumped
  have atTest : Onward code labels _ (c.loopStart.point c.locals.size k) :=
    tested (Nat.le_refl _) ((ready.same (loopStart_scope c)).mono old) begins₂.of_add.of_add
      (.step (.jumpIfZero begins₂.of_add.fetch (located begins.fetch) jumped (exit.mono old)))
  rw [loopStart, point_add] at atTest
  exact .label begins₁.fetch atTest

end

theorem Emits.verified (located : Located code labels) {p : Part} (h : Emits p c c') :
    p.Verified code labels c c' := by
  induction h with
  | integer | real | bool | text =>
    intro Q h k le ready begins next
    rw [point_add] at next
    exact .step (.push begins.fetch next)
  | name loads =>
    intro Q h k le ready begins next
    rw [point_add] at next
    cases loads with
    | global found top =>
      exact .step (.loadGlobal begins.fetch ((ready.placed.index found).1 top) next)
    | loc found deep =>
      have lt := Nat.lt_of_lt_of_le ((ready.placed.index found).2 deep) le
      exact .step (.loadLocal begins.fetch lt next)
  | binary _ left right ih ih' =>
    apply adds_operation ih ih' left.grown.1 right.grown.2
    intro Q h k begins next
    rw [point_add] at next
    exact .step (.binary begins.fetch next)
  | logical _ left right ih ih' =>
    apply adds_operation ih ih' left.grown.1 right.grown.2
    intro Q h k begins next
    rw [point_add] at next
    exact .step (.bitwise begins.fetch next)
  | minus _ _ ih =>
    intro Q h k le ready begins next
    rw [point_add] at next
    exact ih le ready begins.of_add (.step (.neg begins.fetch next))
  | @tilde _ _ _ _ c₁ _ _ ih =>
    intro Q h k le ready begins next
    rw [point_add] at next
    have operation : Onward code labels Q
        ((c₁.add (.push (.value (.bool true)))).point (h + 2) k) :=
      .step (.bitwise begins.fetch next)
    rw [point_add] at operation
    exact ih le ready begins.of_add.of_add (.step (.push begins.of_add.fetch operation))
  | plus _ _ ih => exact ih
  | group _ ih => exact ih
  | @call n es line f c c₁ found arity args ih =>
    intro Q h k le ready begins next
    obtain ⟨mem, name⟩ := funcSymbol?_some found
    obtain ⟨a, g, label, stored, entry⟩ := ready.entered f mem
    rw [name] at label
    rw [arity] at entry
    have globals : (c₁.add (.push (.value (.number (.int es.length))))).globals.size =
        c.globals.size := congrArg Array.size args.grown.1.globals
    rw [point_add, globals] at next
    have entered := Onward.step (.enter begins.fetch label stored (.inl entry) next)
    rw [size_add, ← args.grown.1.globals] at entered
    exact ih le ready begins.of_add.of_add (.step (.pushCount begins.of_add.fetch entered))
  | noExprs => exact fun _ _ _ next => next
  | @moreExprs e es c c₁ c₂ first rest ih ih' =>
    intro Q h k le ready begins next
    have same := first.grown.1
    have le₁ : c₁.locals.size ≤ h + 1 := by
      rw [same.locals]
      omega
    have length : h + (e :: es).length = h + 1 + es.length := by
      rw [List.length_cons]
      omega
    rw [length] at next
    exact ih le ready (begins.of_prefix rest.grown.2)
      (ih' le₁ (ready.same same.symbols) begins next)
  | print first ih =>
    intro k all layered
    apply passes_use ih first.grown.1 (prefix_add _ _)
    intro Q _ begins next
    rw [point_add] at next
    exact .step (.print begins.fetch next)
  | println _ first ih =>
    intro k all layered
    apply passes_use ih first.grown.1 (prefix_add _ _)
    intro Q _ begins next
    rw [point_add] at next
    exact .step (.println begins.fetch next)
  | callStmt first ih =>
    intro k all layered
    apply passes_use ih first.grown.1 (prefix_add _ _)
    intro Q _ begins next
    rw [point_add] at next
    exact .step (.pop begins.fetch next)
  | ret first ih =>
    intro k all layered
    apply passes_use ih first.grown.1 (prefix_add _ _)
    intro Q _ begins _
    obtain rfl : k = true := by simpa [Stmt.all, inner, Stmt.isFunc, Stmt.isRet] using all
    exact .step (.leave begins.fetch)
  | branch test body rest ih ih₁ ih₂ =>
    intro k all layered
    simp only [Stmt.all, Bool.and_eq_true, Block.all_eq] at all
    exact passes_branch located test body rest ih ih₁ ih₂ all.1.2 all.2 layered
  | noElse => exact fun _ _ _ _ _ next => next
  | orElse body ih =>
    intro k all layered Q ready begins next
    rw [Block.allElse, Block.all_eq] at all
    have grown := body.grown layered.opened
    rw [(closed_scope layered grown).locals] at next
    exact passes_block layered grown ih all ready begins next
  | loop test body ih ih₁ =>
    intro k all layered
    simp only [Stmt.all, Bool.and_eq_true, Block.all_eq] at all
    exact passes_loop located test body ih ih₁ all.2 layered
  | assign first _ stores ih =>
    intro k all layered
    exact passes_use ih first.grown.1 (grows_stores stores).code (passes_stores stores)
  | assignLocal first _ ih =>
    intro k all layered
    exact passes_use ih first.grown.1 (grows_withLocal _ _).code fun _ => passes_withLocal
  | count => exact fun _ _ _ _ _ next => next
  | func =>
    intro k all
    simp [Stmt.all, inner, Stmt.isFunc] at all
  | noStmts => exact fun _ _ _ _ _ _ next => next
  | moreStmts first rest ih ih' =>
    intro k all layered deep Q ready begins next
    rw [Stmt.allOf, Bool.and_eq_true] at all
    have grown := first.grown layered
    have layered' := grown.layered layered
    have after := ih' all.2 layered' (grown.depth.symm ▸ deep)
      (ready.stmt first layered deep all.1) begins next
    exact ih all.1 layered ready (begins.of_prefix (rest.grown layered').code) after

/-! ### Top level -/

/-- A state outside of all blocks. -/
structure AtTop (c : Compiler) : Prop where
  layered : Layered c
  depth : c.depth = 0
  locals : c.locals = #[]

theorem Ready.declared {name : String} {arity a : Nat} (ready : Ready labels Q c)
    (found : labels.lookup? name = some a) (entry : Q ⟨a, arity, c.globals.size, true, none⟩) :
    Ready labels Q (c.declared name arity) := by
  refine ⟨⟨ready.placed.locals, ready.placed.globals⟩, ?_⟩
  intro f mem
  rcases Array.mem_push.mp mem with mem | rfl
  · exact ready.entered f mem
  · exact ⟨a, c.globals.size, found, Nat.le_refl _, entry⟩

theorem funcStart_scope (c : Compiler) (name : String) (arity : Nat) :
    SameSymbols (c.declared name arity) (c.funcStart name arity) := ⟨rfl, rfl, rfl, rfl⟩

theorem size_withParams (c : Compiler) (ps : List Param) :
    (c.withParams ps).locals.size = c.locals.size + ps.length := by
  induction ps generalizing c with
  | nil => rfl
  | cons p ps ih =>
    rw [withParams, ih, List.length_cons, withLocal]
    simp [add]
    omega

section
variable {name : String} {ps : List Param} {b : Block}

/-- The entry of a function. -/
def entry (c : Compiler) (ps : List Param) : Point :=
  ⟨c.code.size + 1, ps.length, c.globals.size, true, none⟩

theorem begins_funcStart (top : AtTop c)
    (body : Emits (.stmts b.stmts) ((c.funcStart name ps.length).opened.withParams ps) c₁)
    (begins : c₁.Begins code) : (c.funcStart name ps.length).Begins code := by
  have params := grows_withParams (c.funcStart name ps.length).opened ps
  have layered := ((grows_funcStart c name ps.length).layered top.layered).opened
  exact begins.of_prefix (params.trans (body.grown (params.layered layered))).code

/-- The label of a function is at its entry. -/
theorem fetch_entry (begins : (c.funcStart name ps.length).Begins code) :
    code[(c.entry ps).pc]? = some (.label name) := by
  have fetch := Begins.fetch begins
  rw [size_add] at fetch
  exact fetch

/-- A call of a function is safe. -/
theorem follows_entry (located : Located code labels) (top : AtTop c)
    (body : Emits (.stmts b.stmts) ((c.funcStart name ps.length).opened.withParams ps) c₁)
    (all : Stmt.allOf (inner true) b.stmts = true) (begins : c₁.closed.funcEnd.Begins code)
    (ready : Ready labels Q (c.funcStart name ps.length)) :
    Follows code labels (Onward code labels Q) (c.entry ps) := by
  have params := grows_withParams (c.funcStart name ps.length).opened ps
  have layered := ((grows_funcStart c name ps.length).layered top.layered).opened
  have symbols := func_scope top.layered body
  have grown := body.grown (params.layered layered)
  have begins₁ : c₁.Begins code := begins.of_add.of_add.of_prefix (prefix_closed c₁)
  have begins₀ : ((c.funcStart name ps.length).opened.withParams ps).Begins code :=
    begins₁.of_prefix grown.code
  have deep : (c.funcStart name ps.length).opened.depth ≠ 0 := by
    change c.depth + 1 ≠ 0
    rw [top.depth]
    decide
  have left : Onward code labels Q (c₁.closed.point c₁.closed.locals.size true) := by
    have last : Onward code labels Q ((c₁.closed.add (.push (.value .nothing))).point
        (c₁.closed.locals.size + 1) true) := .step (.leave begins.fetch)
    rw [point_add] at last
    exact .step (.push begins.of_add.fetch last)
  have size : ((c.funcStart name ps.length).opened.withParams ps).locals.size = ps.length := by
    rw [size_withParams]
    change c.locals.size + ps.length = _
    rw [top.locals]
    exact Nat.zero_add _
  have start := body.verified located all (params.layered layered) (params.depth.symm ▸ deep)
    (ready.opened.grows params deep (functions_withParams _ ps)) begins₁
    (onward_closed begins.of_add.of_add left)
  rw [size] at start
  have start : Onward code labels Q ((c.funcStart name ps.length).point ps.length true) :=
    onward_params (c := (c.funcStart name ps.length).opened) ps begins₀ start
  rw [funcStart, point_add, size_add] at start
  exact .label (fetch_entry (begins_funcStart top body begins₁)) start

/-- Before a declaration it is safe if it is safe after it: the body is jumped over. -/
theorem onward_func (located : Located code labels) (top : AtTop c)
    (body : Emits (.stmts b.stmts) ((c.funcStart name ps.length).opened.withParams ps) c₁)
    (begins : (c₁.closed.funcEnd.ending (c.labels + 1)).Begins code)
    (next : Onward code labels Q ((c₁.closed.funcEnd.ending (c.labels + 1)).point h k)) :
    Onward code labels Q (c.point h k) := by
  have begins' : (c.funcStart name ps.length).Begins code :=
    begins_funcStart top body (begins.of_add.of_add.of_add.of_prefix (prefix_closed c₁))
  have globals : c₁.closed.funcEnd.globals = c.globals := (func_scope top.layered body).globals
  rw [ending, point_add, globals] at next
  exact .step (.jump begins'.of_add.fetch (located begins.fetch) (.step (.label begins.fetch next)))

end

theorem AtTop.stmt {s : Stmt} (top : AtTop c) (h : Emits (.stmt s) c c')
    (plain : s.isLocal = false) : AtTop c' := by
  have grown := h.grown top.layered
  refine ⟨grown.layered top.layered, grown.depth.trans top.depth, ?_⟩
  rw [(h.kept top.layered).locals top.depth plain, top.locals]

/-- Outside of functions more globals may become known. -/
theorem Ready.top {s : Stmt} (ready : Ready labels Q c) (top : AtTop c) (h : Emits (.stmt s) c c')
    (plain : s.isLocal = false) (other : s.isFunc = false) : Ready labels Q c' := by
  have grown := h.grown top.layered
  obtain ⟨news, eq, all⟩ := grown.globals
  refine ⟨⟨?_, ?_⟩, ?_⟩
  · rw [(top.stmt h plain).locals]
    simp
  · intro s mem
    rw [eq] at mem
    rcases Array.mem_append.mp mem with mem | mem
    · exact ready.placed.globals s mem
    · exact (all s mem).trans top.depth
  · intro f mem
    rw [(h.kept top.layered).functions other] at mem
    obtain ⟨a, g, found, le, entry⟩ := ready.entered f mem
    refine ⟨a, g, found, ?_, entry⟩
    rw [eq, Array.size_append]
    omega

/-- Statements at top level, with the entries of the functions that they declare. -/
theorem Emits.verified_top (located : Located code labels) {ss : List Stmt}
    (h : Emits (.stmts ss) c c') (top : AtTop c)
    (funcs : ss.all (Stmt.allInside fun s => !s.isFunc) = true)
    (rets : (ss.all fun s => s.isFunc || s.all fun s => !s.isRet) = true)
    (plain : (ss.all fun s => !s.isLocal) = true) (begins : c'.Begins code) :
    ∃ E : Point → Prop, ∀ Q, (∀ e, E e → Q e) → Ready labels Q c →
      (Onward code labels Q (c'.point 0 false) → Onward code labels Q (c.point 0 false)) ∧
      ∀ e, E e → Follows code labels (Onward code labels Q) e := by
  induction ss generalizing c with
  | nil =>
    cases h with
    | noStmts => exact ⟨fun _ => False, fun Q _ _ => ⟨id, by simp⟩⟩
  | cons s ss ih =>
    simp only [List.all_cons, Bool.and_eq_true] at funcs rets plain
    cases h with
    | @moreStmts _ _ _ c₁ _ first rest =>
      have plain' : s.isLocal = false := by simpa using plain.1
      have top' := top.stmt first plain'
      have begins' := begins.of_prefix (rest.grown top'.layered).code
      obtain ⟨E, later⟩ := ih rest top' funcs.2 rets.2 plain.2
      cases func : s.isFunc with
      | false =>
        have all : s.all (inner false) = true := by
          have none : s.all (fun s => !s.isFunc) = true := by
            rw [Stmt.all_eq, funcs.1, func]
            rfl
          rw [func, Bool.false_or] at rets
          rw [inner_false, Stmt.all_and, none, rets.1]
          rfl
        refine ⟨E, fun Q sub ready => ?_⟩
        obtain ⟨onward, entries⟩ := later Q sub (ready.top top first plain' func)
        refine ⟨fun next => ?_, entries⟩
        have passed := first.verified located all top.layered ready begins'
        rw [top.locals, top'.locals] at passed
        exact passed (onward next)
      | true =>
        cases first with
        | @func name ps b _ _ c₁ new _ body =>
          have all : Stmt.allOf (inner true) b.stmts = true := by
            rw [inner_true, ← Block.all_eq]
            exact funcs.1
          have scope := func_scope top.layered body
          refine ⟨fun e => E e ∨ e = c.entry ps, fun Q sub ready => ?_⟩
          have begins₁ := begins_funcStart top body
            (begins'.of_add.of_add.of_add.of_prefix (prefix_closed _))
          have ready₁ := ready.declared (located (fetch_entry begins₁)) (sub _ (.inr rfl))
          have ready₂ := ready₁.same (funcStart_scope c name ps.length)
          obtain ⟨onward, entries⟩ := later Q (fun e mem => sub e (.inl mem))
            (ready₂.same ⟨scope.locals, scope.globals, scope.functions, scope.depth⟩)
          refine ⟨fun next => onward_func located top body begins' (onward next), ?_⟩
          rintro e (mem | rfl)
          · exact entries e mem
          · exact follows_entry located top body all begins'.of_add ready₂
        | _ => simp [Stmt.isFunc] at func

/-- Nothing is there when a program begins. -/
def start : Point := ⟨0, 0, 0, false, none⟩

/-- A whole program is safe from its start on, with no way out. -/
theorem onward_start {ss : List Stmt} (h : Emits (.stmts ss) first c)
    (located : Located (c.add .halt).code labels)
    (funcs : ss.all (Stmt.allInside fun s => !s.isFunc) = true)
    (rets : (ss.all fun s => s.isFunc || s.all fun s => !s.isRet) = true)
    (plain : (ss.all fun s => !s.isLocal) = true) :
    Onward (c.add .halt).code labels (fun _ => False) start := by
  have begins : (c.add .halt).Begins (c.add .halt).code := List.prefix_refl _
  have top : AtTop first := ⟨Machine.layered_first, rfl, rfl⟩
  obtain ⟨E, all⟩ := h.verified_top located top funcs rets plain begins.of_add
  have ready : Ready labels (fun q => False ∨ E q) first :=
    ⟨⟨by simp [first, add, empty], by simp [first, add, empty]⟩,
      by simp [Entered, first, add, empty]⟩
  obtain ⟨onward, entries⟩ := all _ (fun e mem => .inr mem) ready
  have last := onward (.step (.halt begins.fetch))
  rw [first, point_add] at last
  have label : (empty.add (.label "START")).Begins (c.add .halt).code :=
    begins.of_add.of_prefix (h.grown top.layered).code
  exact .fix entries (.step (.label label.fetch last))

end ScriptLang.Compiler
