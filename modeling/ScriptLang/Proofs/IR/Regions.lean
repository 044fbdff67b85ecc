import ScriptLang.Proofs.IR.Numbering

/-!
The shape of a module that was built.

A builder adds only to the block it stands at, and a block that an instruction leaves is never
touched again (`Touches`). So the blocks that were made for some statements, with the instructions
that leave them, form a region of the finished module with one block to enter and one block to go on
from (`Region`), and regions are put together as the statements are.
-/

namespace ScriptLang.IR

/-- The numbers of the blocks that an instruction may go to. -/
def Instr.targets : Instr → List Nat
  | .branch _ yes no => [yes, no]
  | .jump target => [target]
  | _ => []

namespace Block

variable {b : Block} {x y : Instr} {n : Nat}

/-- No instruction leaves the block. -/
def Plain (b : Block) : Prop := ∀ e ∈ b.code, e.2.leaves = false

/-- The block ends with an instruction that leaves it, and there is no other such instruction. -/
def Ends (b : Block) (x : Instr) : Prop :=
  x.leaves = true ∧ ∃ before n, b.code.toList = before ++ [(n, x)] ∧
    ∀ e ∈ before, e.2.leaves = false

theorem Plain.grown (h : b.Plain) (stays : x.leaves = false) : (b.grown n x).Plain := by
  intro e mem
  rcases Array.mem_push.mp mem with mem | rfl
  · exact h e mem
  · exact stays

theorem Plain.ends (h : b.Plain) (leaves : x.leaves = true) : (b.grown n x).Ends x :=
  ⟨leaves, b.code.toList, n, Array.toList_push, fun e mem => h e (Array.mem_toList_iff.mp mem)⟩

theorem Ends.not_plain (h : b.Ends x) : ¬ b.Plain := by
  obtain ⟨leaves, before, n, code, -⟩ := h
  intro plain
  have stays := plain (n, x) (Array.mem_toList_iff.mp (by simp [code]))
  simp [leaves] at stays

theorem Ends.unique (h : b.Ends x) (h' : b.Ends y) : x = y := by
  obtain ⟨-, before, n, code, -⟩ := h
  obtain ⟨-, before', n', code', -⟩ := h'
  have last := congrArg List.getLast? (code.symm.trans code')
  simp at last
  exact last.2

theorem Plain.not_ended (h : b.Plain) : b.ended = false := by
  rw [ended]
  cases last : b.code.back? with
  | none => rfl
  | some e => exact h e (Array.mem_of_back? last)

end Block

namespace Builder

variable {m m' m₁ m₂ m₃ f : Builder} {i j k n t p : Nat} {x : Instr} {S S' : Nat → Prop}
  {v : Operand}

/-! ### What a building leaves alone -/

/-- No instruction leaves a block yet. -/
def Waits (m : Builder) (i : Nat) : Prop := ∃ b, m.blocks[i]? = some b ∧ b.Plain

/-- The builder stands at a block that no instruction leaves yet. -/
def Open (m : Builder) : Prop := m.Waits m.current

/-- A module was changed, but of the blocks from before only some, and of these only such as no
instruction left. -/
structure Touches (S : Nat → Prop) (m m' : Builder) : Prop where
  changed : Changed m m'
  others : ∀ i < m.blocks.size, ¬ S i → m'.blocks[i]? = m.blocks[i]?
  follows : ∀ (i : Nat) (b : Block), m.blocks[i]? = some b → ¬ b.Plain → m'.blocks[i]? = some b

/-- A module comes before another in a building. -/
def Precedes (m f : Builder) : Prop := Touches (fun _ => True) m f

theorem Changed.size_le (h : Changed m m') : m.blocks.size ≤ m'.blocks.size := by
  induction h with
  | refl => exact Nat.le_refl _
  | add _ _ ih => simpa using ih
  | withBlock _ ih => simpa using Nat.le_succ_of_le ih
  | moved _ _ ih | declare _ ih => exact ih

theorem touches_of_blocks (changed : Changed m m') (same : m'.blocks = m.blocks) :
    Touches S m m' :=
  ⟨changed, fun i _ _ => by rw [same], fun i b found _ => by rw [same, found]⟩

theorem Touches.trans (h : Touches S m m₁) (h' : Touches S' m₁ m₂)
    (sub : ∀ i < m.blocks.size, S' i → S i) : Touches S m m₂ where
  changed := h.changed.trans h'.changed
  others i lt out := by
    have lt' := Nat.lt_of_lt_of_le lt h.changed.size_le
    rw [h'.others i lt' (fun inside => out (sub i lt inside)), h.others i lt out]
  follows i b found left := h'.follows i b (h.follows i b found left) left

theorem Touches.precedes (h : Touches S m m') : Precedes m m' :=
  ⟨h.changed, fun _ _ out => absurd trivial out, h.follows⟩

theorem Precedes.refl (m : Builder) : Precedes m m := touches_of_blocks .refl rfl

theorem Precedes.trans (h : Precedes m m₁) (h' : Precedes m₁ m₂) : Precedes m m₂ :=
  Touches.trans h h' fun _ _ _ => trivial

theorem Touches.waits (h : Touches S m m') (waits : m.Waits i) (out : ¬ S i) : m'.Waits i := by
  obtain ⟨b, found, plain⟩ := waits
  have lt := (Array.getElem?_eq_some_iff.mp found).1
  exact ⟨b, (h.others i lt out).trans found, plain⟩

theorem touches_add (isOpen : Open m) (x : Instr) : Touches (· = m.current) m (m.add x) where
  changed := .add x .refl
  others _ _ other := getElem?_add_ne x other
  follows i b found left := by
    rw [getElem?_add_ne x, found]
    rintro rfl
    obtain ⟨b', found', plain⟩ := isOpen
    cases found.symm.trans found'
    exact left plain

theorem touches_withBlock (m : Builder) : Touches S m m.withBlock := by
  have same (i : Nat) (lt : i < m.blocks.size) : m.withBlock.blocks[i]? = m.blocks[i]? := by
    rw [getElem?_withBlock, if_neg (Nat.ne_of_lt lt)]
  refine ⟨.withBlock .refl, fun i lt _ => same i lt, fun i b found _ => ?_⟩
  rw [same i (Array.getElem?_eq_some_iff.mp found).1, found]

theorem touches_withBlocks (m : Builder) : Touches S m m.withBlocks :=
  ((touches_withBlock m).trans (touches_withBlock _) fun _ _ => id).trans (touches_withBlock _)
    fun _ _ => id

theorem touches_moved (m : Builder) (p : Nat) : Touches S m (m.moved p) :=
  touches_of_blocks (.moved p .refl) rfl

/-! ### Leaving a block -/

theorem touches_turned (isOpen : Open m) (t p : Nat) :
    Touches (· = m.current) m (m.turned t p) :=
  (touches_add isOpen _).trans (touches_moved _ p) fun _ _ => id

theorem touches_parted (isOpen : Open m) (v : Operand) (j k p : Nat) :
    Touches (· = m.current) m (m.parted v j k p) :=
  (touches_add isOpen _).trans (touches_moved _ p) fun _ _ => id

@[simp] theorem size_turned (m : Builder) (t p : Nat) :
    (m.turned t p).blocks.size = m.blocks.size := size_add m _

@[simp] theorem size_parted (m : Builder) (v : Operand) (j k p : Nat) :
    (m.parted v j k p).blocks.size = m.blocks.size := size_add m _

/-- The block that a builder leaves ends with the instruction by which it does, for ever. -/
theorem ends_of_precedes (isOpen : Open m) (leaves : x.leaves = true)
    (later : Precedes (m.add x) f) : ∃ b, f.blocks[m.current]? = some b ∧ b.Ends x := by
  obtain ⟨b, found, plain⟩ := isOpen
  have ends : (b.grown (m.counter + 1) x).Ends x := plain.ends leaves
  refine ⟨_, later.follows m.current _ ?_ ends.not_plain, ends⟩
  rw [getElem?_add, if_pos rfl, found]
  rfl

/-! ### New blocks -/

theorem waits_withBlocks (lt : i < 3) : m.withBlocks.Waits (m.blocks.size + i) := by
  have new (m : Builder) : m.withBlock.Waits m.blocks.size :=
    ⟨_, by rw [getElem?_withBlock, if_pos rfl], by simp [Block.Plain]⟩
  have kept (m : Builder) {j : Nat} (waits : m.Waits j) : m.withBlock.Waits j :=
    (touches_withBlock (S := fun _ => False) m).waits waits id
  rw [withBlocks]
  obtain rfl | rfl | rfl : i = 0 ∨ i = 1 ∨ i = 2 := by omega
  · exact kept _ (kept _ (new m))
  · have second := new m.withBlock
    rw [size_withBlock] at second
    exact kept _ second
  · have third := new m.withBlock.withBlock
    rw [size_withBlock, size_withBlock] at third
    exact third

theorem labelled_withBlocks (lt : i < 3) :
    m.withBlocks.Labelled (m.blocks.size + i) (m.counter + 1 + i) := by
  rw [withBlocks]
  obtain rfl | rfl | rfl : i = 0 ∨ i = 1 ∨ i = 2 := by omega
  · refine labelled_withBlock.mpr (.inl (labelled_withBlock.mpr (.inl ?_)))
    exact labelled_withBlock.mpr (.inr ⟨rfl, rfl⟩)
  · refine labelled_withBlock.mpr (.inl (labelled_withBlock.mpr (.inr ⟨?_, rfl⟩)))
    rw [size_withBlock]
  · refine labelled_withBlock.mpr (.inr ⟨?_, rfl⟩)
    rw [size_withBlock, size_withBlock]

/-! ### Frames -/

/-- A building only adds to the block it starts at and to new ones, and comes to a block that is
open. -/
structure Framed (m m' : Builder) : Prop where
  touches : Touches (· = m.current) m m'
  isOpen : Open m'
  current : m'.current = m.current ∨ m.blocks.size ≤ m'.current

theorem Framed.trans (h : Framed m m₁) (h' : Framed m₁ m₂) : Framed m m₂ where
  touches := h.touches.trans h'.touches fun i lt same => by
    rcases h.current with eq | le
    · exact same.trans eq
    · omega
  isOpen := h'.isOpen
  current := by
    have le := h.touches.changed.size_le
    rcases h'.current with eq | le'
    · rw [eq]
      exact h.current
    · exact .inr (Nat.le_trans le le')

theorem Open.add (isOpen : Open m) (stays : x.leaves = false) : Open (m.add x) := by
  obtain ⟨b, found, plain⟩ := isOpen
  refine ⟨b.grown (m.counter + 1) x, ?_, plain.grown stays⟩
  rw [getElem?_add]
  exact (if_pos rfl).trans (congrArg _ found)

theorem Straight.current (h : Straight m m') : m'.current = m.current := by
  induction h with
  | refl => rfl
  | add _ _ ih | declare _ ih => exact ih

theorem Straight.size (h : Straight m m') : m'.blocks.size = m.blocks.size := by
  induction h with
  | refl => rfl
  | add _ _ ih => rw [size_add, ih]
  | declare _ ih => exact ih

theorem Straight.placed (h : Straight m m') (placed : Placed m) : Placed m' := by
  rw [Placed, h.current, h.size]
  exact placed

theorem Straight.framed (h : Straight m m') (isOpen : Open m) : Framed m m' := by
  induction h with
  | refl => exact ⟨touches_of_blocks .refl rfl, isOpen, .inl rfl⟩
  | @add m₁ x before stays ih =>
    have touched : Touches (· = m₁.current) m₁ (m₁.add x) := touches_add ih.isOpen x
    exact ih.trans ⟨touched, ih.isOpen.add stays, .inl rfl⟩
  | declare _ ih =>
    exact ih.trans ⟨touches_of_blocks (.declare .refl) rfl, ih.isOpen, .inl rfl⟩

/-! ### Blocks that wait for the builder -/

@[simp] theorem current_turned (m : Builder) (t p : Nat) : (m.turned t p).current = p := rfl

@[simp] theorem current_parted (m : Builder) (v : Operand) (j k p : Nat) :
    (m.parted v j k p).current = p := rfl

/-- No instruction leaves a block yet, and the builder is elsewhere. -/
structure Pending (m : Builder) (i : Nat) : Prop where
  waits : m.Waits i
  elsewhere : i ≠ m.current

theorem Waits.lt (h : m.Waits i) : i < m.blocks.size := by
  obtain ⟨b, found, -⟩ := h
  exact (Array.getElem?_eq_some_iff.mp found).1

/-- A block that waits still waits after any statements. -/
theorem Framed.pending (h : Framed m m') (pending : Pending m i) : Pending m' i where
  waits := h.touches.waits pending.waits pending.elsewhere
  elsewhere := by
    have lt := pending.waits.lt
    have other := pending.elsewhere
    rcases h.current with eq | le
    · rwa [eq]
    · omega

theorem Pending.turned (h : Pending m i) (isOpen : Open m) (t p : Nat) : (m.turned t p).Waits i :=
  (touches_turned isOpen t p).waits h.waits h.elsewhere

theorem Pending.parted (h : Pending m i) (isOpen : Open m) (v : Operand) (j k p : Nat) :
    (m.parted v j k p).Waits i :=
  (touches_parted isOpen v j k p).waits h.waits h.elsewhere

theorem open_withBlocks (isOpen : Open m) : Open m.withBlocks :=
  (touches_withBlocks (S := fun _ => False) m).waits isOpen id

theorem pending_withBlocks (isOpen : Open m) (lt : i < 3) :
    Pending m.withBlocks (m.blocks.size + i) where
  waits := waits_withBlocks lt
  elsewhere := by
    have placed : m.current < m.blocks.size := isOpen.lt
    have same : m.withBlocks.current = m.current := rfl
    omega

section Branch

/-- Where the first block of a branch begins. -/
abbrev thenStart (m : Builder) (v : Operand) : Builder :=
  m.withBlocks.parted v (m.counter + 1) (m.counter + 2) m.blocks.size

/-- Where the second block of a branch begins. -/
abbrev elseStart (m m₂ : Builder) : Builder := m₂.turned (m.counter + 3) (m.blocks.size + 1)

/-- Where a branch goes on after its blocks. -/
abbrev exitStart (m m₃ : Builder) : Builder := m₃.turned (m.counter + 3) (m.blocks.size + 2)

theorem touches_thenStart (isOpen : Open m) (v : Operand) :
    Touches (· = m.current) m (m.thenStart v) :=
  (touches_withBlocks m).trans (touches_parted (open_withBlocks isOpen) v _ _ _) fun _ _ => id

theorem open_thenStart (isOpen : Open m) (v : Operand) : Open (m.thenStart v) :=
  (pending_withBlocks (i := 0) isOpen (by omega)).parted (open_withBlocks isOpen) v _ _ _

theorem pending_thenStart (isOpen : Open m) (v : Operand) (pos : 0 < i) (lt : i < 3) :
    Pending (m.thenStart v) (m.blocks.size + i) where
  waits := (pending_withBlocks isOpen lt).parted (open_withBlocks isOpen) v _ _ _
  elsewhere := by
    rw [current_parted]
    omega

variable (isOpen : Open m) (first : Framed (m.thenStart v) m₂)
include isOpen first

theorem open_elseStart : Open (m.elseStart m₂) :=
  (first.pending (pending_thenStart isOpen v (by omega) (by omega))).turned first.isOpen _ _

variable (second : Framed (m.elseStart m₂) m₃)
include second

theorem open_exitStart : Open (m.exitStart m₃) := by
  have pending := first.pending (pending_thenStart isOpen v (i := 2) (by omega) (by omega))
  have pending' : Pending (m.elseStart m₂) (m.blocks.size + 2) :=
    ⟨pending.turned first.isOpen _ _, by rw [current_turned]; omega⟩
  exact (second.pending pending').turned second.isOpen _ _

/-- A branch only adds to the block it is left from and to new ones. -/
theorem framed_branch : Framed m (m.exitStart m₃) where
  touches := by
    have at₂ := first.current
    have at₃ := second.current
    have le := first.touches.changed.size_le
    rw [size_turned, current_turned] at at₃
    rw [size_parted, size_withBlocks, current_parted] at at₂
    rw [size_parted, size_withBlocks] at le
    refine ((((touches_thenStart isOpen v).trans first.touches fun i lt same => ?_).trans
      (touches_turned first.isOpen _ _) fun i lt same => ?_).trans
      second.touches fun i lt same => ?_).trans
      (touches_turned second.isOpen _ _) fun i lt same => ?_
    · rw [current_parted] at same
      omega
    · omega
    · rw [current_turned] at same
      omega
    · omega
  isOpen := open_exitStart isOpen first second
  current := .inr (by rw [current_turned]; omega)

end Branch

section Loop

/-- Where the test of a loop begins. -/
abbrev testStart (m : Builder) : Builder := m.withBlocks.turned (m.counter + 1) m.blocks.size

/-- Where the body of a loop begins. -/
abbrev bodyStart (m m₁ : Builder) (v : Operand) : Builder :=
  m₁.parted v (m.counter + 2) (m.counter + 3) (m.blocks.size + 1)

/-- Where a loop goes on after its body. -/
abbrev loopExit (m m₂ : Builder) : Builder := m₂.turned (m.counter + 1) (m.blocks.size + 2)

theorem touches_testStart (isOpen : Open m) : Touches (· = m.current) m m.testStart :=
  (touches_withBlocks m).trans (touches_turned (open_withBlocks isOpen) _ _) fun _ _ => id

theorem open_testStart (isOpen : Open m) : Open m.testStart :=
  (pending_withBlocks (i := 0) isOpen (by omega)).turned (open_withBlocks isOpen) _ _

theorem pending_testStart (isOpen : Open m) (pos : 0 < i) (lt : i < 3) :
    Pending m.testStart (m.blocks.size + i) where
  waits := (pending_withBlocks isOpen lt).turned (open_withBlocks isOpen) _ _
  elsewhere := by
    rw [current_turned]
    omega

variable (isOpen : Open m) (tested : Straight m.testStart m₁)
include isOpen tested

theorem open_tested : Open m₁ := (tested.framed (open_testStart isOpen)).isOpen

theorem pending_tested (pos : 0 < i) (lt : i < 3) : Pending m₁ (m.blocks.size + i) :=
  (tested.framed (open_testStart isOpen)).pending (pending_testStart isOpen pos lt)

theorem open_bodyStart : Open (m.bodyStart m₁ v) :=
  (pending_tested isOpen tested (by omega) (by omega)).parted (open_tested isOpen tested) v _ _ _

variable (body : Framed (m.bodyStart m₁ v) m₂)
include body

theorem open_loopExit : Open (m.loopExit m₂) := by
  have before := pending_tested isOpen tested (i := 2) (by omega) (by omega)
  have pending : Pending (m.bodyStart m₁ v) (m.blocks.size + 2) :=
    ⟨before.parted (open_tested isOpen tested) v _ _ _, by rw [current_parted]; omega⟩
  exact (body.pending pending).turned body.isOpen _ _

/-- A loop only adds to the block it is left from and to new ones. -/
theorem framed_loop : Framed m (m.loopExit m₂) where
  touches := by
    have at₁ := tested.current
    have at₂ := body.current
    have size := tested.size
    rw [current_turned] at at₁
    rw [size_turned, size_withBlocks] at size
    rw [size_parted, size, current_parted] at at₂
    refine ((((touches_testStart isOpen).trans
      (tested.framed (open_testStart isOpen)).touches fun i lt same => ?_).trans
      (touches_parted (open_tested isOpen tested) v _ _ _) fun i lt same => ?_).trans
      body.touches fun i lt same => ?_).trans
      (touches_turned body.isOpen _ _) fun i lt same => ?_
    · rw [current_turned] at same
      omega
    · omega
    · rw [current_parted] at same
      omega
    · omega
  isOpen := open_loopExit isOpen tested body
  current := .inr (by rw [current_turned]; omega)

end Loop

theorem Builds.framed {ss : List Stmt} (h : Builds ss m m') (isOpen : Open m) : Framed m m' := by
  induction h with
  | nil => exact Straight.refl.framed isOpen
  | line one _ ih =>
    have first := one.straight.framed isOpen
    exact first.trans (ih first.isOpen)
  | branch tested _ _ _ ih₁ ih₂ ih₃ =>
    have test := tested.straight.framed isOpen
    have first := ih₁ (open_thenStart test.isOpen _)
    have second := ih₂ (open_elseStart test.isOpen first)
    have whole := framed_branch test.isOpen first second
    exact (test.trans whole).trans (ih₃ whole.isOpen)
  | loop tested _ _ ih₁ ih₂ =>
    have body := ih₁ (open_bodyStart isOpen tested.straight)
    have whole := framed_loop isOpen tested.straight body
    exact whole.trans (ih₂ whole.isOpen)

/-! ### What a branch and a loop leave behind -/

/-- A block ends with a jump to another. -/
def Jumps (f : Builder) (i j : Nat) : Prop :=
  ∃ b t, f.blocks[i]? = some b ∧ b.Ends (.jump t) ∧ f.Labelled j t

/-- A block ends with a branch to two others. -/
def Branches (f : Builder) (i j k : Nat) : Prop :=
  ∃ b v s t, f.blocks[i]? = some b ∧ b.Ends (.branch v s t) ∧ f.Labelled j s ∧ f.Labelled k t

theorem jumps_of_turned (isOpen : Open m) (later : Precedes (m.turned t p) f)
    (label : f.Labelled j t) : Jumps f m.current j := by
  have moved : Precedes (m.add (.jump t)) (m.turned t p) := touches_moved _ p
  obtain ⟨b, found, ends⟩ := ends_of_precedes isOpen rfl (moved.trans later)
  exact ⟨b, t, found, ends, label⟩

theorem branches_of_parted {s : Nat} (isOpen : Open m) (later : Precedes (m.parted v s t p) f)
    (yes : f.Labelled j s) (no : f.Labelled k t) : Branches f m.current j k := by
  have moved : Precedes (m.add (.branch v s t)) (m.parted v s t p) := touches_moved _ p
  obtain ⟨b, found, ends⟩ := ends_of_precedes isOpen rfl (moved.trans later)
  exact ⟨b, v, s, t, found, ends, yes, no⟩

/-- A branch in a later module: the builder left the test for the two blocks, and each of them for
the exit. -/
structure Fork (f m₁ m₂ m₃ : Builder) (v : Operand) : Prop where
  isOpen : Open m₁
  first : Framed (m₁.thenStart v) m₂
  second : Framed (m₁.elseStart m₂) m₃
  later₂ : Precedes m₂ f
  later₃ : Precedes m₃ f
  branches : Branches f m₁.current m₁.blocks.size (m₁.blocks.size + 1)
  jumps : Jumps f m₂.current (m₁.blocks.size + 2)
  jumps' : Jumps f m₃.current (m₁.blocks.size + 2)

theorem fork_of_framed (isOpen : Open m₁) (first : Framed (m₁.thenStart v) m₂)
    (second : Framed (m₁.elseStart m₂) m₃) (later : Precedes (m₁.exitStart m₃) f) :
    Fork f m₁ m₂ m₃ v := by
  have later₃ := (touches_turned second.isOpen _ _).precedes.trans later
  have fromElse := second.touches.precedes.trans later₃
  have later₂ := (touches_turned first.isOpen _ _).precedes.trans fromElse
  have fromThen := first.touches.precedes.trans later₂
  have labels {i : Nat} (lt : i < 3) : f.Labelled (m₁.blocks.size + i) (m₁.counter + 1 + i) :=
    (Changed.parted .refl _ _ _ _).trans fromThen.changed |>.labelled (labelled_withBlocks lt)
  have branches := branches_of_parted (open_withBlocks isOpen) fromThen
    (labels (i := 0) (by omega)) (labels (i := 1) (by omega))
  exact ⟨isOpen, first, second, later₂, later₃, branches,
    jumps_of_turned first.isOpen fromElse (labels (i := 2) (by omega)),
    jumps_of_turned second.isOpen later (labels (i := 2) (by omega))⟩

/-- A loop in a later module: the builder came to the test, left it for the body or the exit, and
came back from the body. -/
structure Cycle (f m m₁ m₂ : Builder) (v : Operand) : Prop where
  isOpen : Open m
  tested : Straight m.testStart m₁
  body : Framed (m.bodyStart m₁ v) m₂
  later₁ : Precedes m₁ f
  later₂ : Precedes m₂ f
  jumps : Jumps f m.current m.blocks.size
  branches : Branches f m.blocks.size (m.blocks.size + 1) (m.blocks.size + 2)
  jumps' : Jumps f m₂.current m.blocks.size

theorem cycle_of_framed (isOpen : Open m) (tested : Straight m.testStart m₁)
    (body : Framed (m.bodyStart m₁ v) m₂) (later : Precedes (m.loopExit m₂) f) :
    Cycle f m m₁ m₂ v := by
  have test := tested.framed (open_testStart isOpen)
  have later₂ := (touches_turned body.isOpen _ _).precedes.trans later
  have fromBody := body.touches.precedes.trans later₂
  have later₁ := (touches_parted test.isOpen _ _ _ _).precedes.trans fromBody
  have fromTest := test.touches.precedes.trans later₁
  have labels {i : Nat} (lt : i < 3) : f.Labelled (m.blocks.size + i) (m.counter + 1 + i) :=
    (Changed.turned .refl _ _).trans fromTest.changed |>.labelled (labelled_withBlocks lt)
  have branches := branches_of_parted test.isOpen fromBody (labels (i := 1) (by omega))
    (labels (i := 2) (by omega))
  rw [tested.current, current_turned] at branches
  have jumps := jumps_of_turned (open_withBlocks isOpen) fromTest (labels (i := 0) (by omega))
  exact ⟨isOpen, tested, body, later₁, later₂, jumps, branches,
    jumps_of_turned body.isOpen later (labels (i := 0) (by omega))⟩

theorem Cycle.size (h : Cycle f m m₁ m₂ v) : m₁.blocks.size = m.blocks.size + 3 := by
  rw [h.tested.size, size_turned, size_withBlocks]

/-! ### Regions -/

/-- The blocks from `lo` up to `hi`, not included, are entered from the block `a`, are left by jumps
and branches to each other, and go on from the block `z`. -/
inductive Region (f : Builder) : (a z lo hi : Nat) → Prop where
  | line {a lo} : Region f a a lo lo
  | seq {a b z lo mid hi} : Region f a b lo mid → Region f b z mid hi → Region f a z lo hi
  | branch {a n y mid z hi} : Branches f a n (n + 1) → Region f n y (n + 3) mid →
      Jumps f y (n + 2) → Region f (n + 1) z mid hi → Jumps f z (n + 2) → Region f a (n + 2) n hi
  | loop {a n z hi} : Jumps f a n → Branches f n (n + 1) (n + 2) →
      Region f (n + 1) z (n + 3) hi → Jumps f z n → Region f a (n + 2) n hi

/-- The blocks made for some statements are a region of every later module. -/
theorem Builds.region {ss : List Stmt} (h : Builds ss m m') (isOpen : Open m)
    (later : Precedes m' f) :
    Region f m.current m'.current m.blocks.size m'.blocks.size := by
  induction h with
  | nil => exact .line
  | line one _ ih =>
    have first := one.straight.framed isOpen
    have rest := ih first.isOpen later
    rwa [one.straight.current, one.straight.size] at rest
  | branch tested b₁ b₂ b₃ ih₁ ih₂ ih₃ =>
    have test := tested.straight.framed isOpen
    have first := b₁.framed (open_thenStart test.isOpen _)
    have second := b₂.framed (open_elseStart test.isOpen first)
    have exits := open_exitStart test.isOpen first second
    have fork := fork_of_framed test.isOpen first second
      ((b₃.framed exits).touches.precedes.trans later)
    have one := ih₁ (open_thenStart test.isOpen _) fork.later₂
    have two := ih₂ (open_elseStart test.isOpen first) fork.later₃
    have rest := ih₃ exits later
    simp only [size_turned, size_parted, size_withBlocks, current_turned, current_parted]
      at one two rest
    rw [← tested.straight.current, ← tested.straight.size]
    exact .seq (.branch fork.branches one fork.jumps two fork.jumps') rest
  | loop tested b₁ b₂ ih₁ ih₂ =>
    have body := b₁.framed (open_bodyStart isOpen tested.straight)
    have exits := open_loopExit isOpen tested.straight body
    have cycle := cycle_of_framed isOpen tested.straight body
      ((b₂.framed exits).touches.precedes.trans later)
    have inner := ih₁ (open_bodyStart isOpen tested.straight) cycle.later₂
    have rest := ih₂ exits later
    simp only [size_turned, size_parted, cycle.size, current_turned, current_parted] at inner rest
    exact .seq (.loop cycle.jumps cycle.branches inner cycle.jumps') rest

end Builder

end ScriptLang.IR
