import ScriptLang.Proofs.IR.Building

/-!
Numbers of blocks and instructions.

Blocks and instructions take their numbers from one counter, so every number stands at one place
(`Numbered`). Hence what was added between two states of a building are the instructions with the
numbers between their counters (`AllBetween`), wherever these stand in the finished module.
-/

namespace ScriptLang.IR.Builder

variable {m m' m₁ f : Builder} {i j k n : Nat} {x y : Instr}

/-! ### Places -/

/-- An instruction and its number stand at a place in a block. -/
def Holds (m : Builder) (i k number : Nat) (x : Instr) : Prop :=
  ∃ b, m.blocks[i]? = some b ∧ b.code[k]? = some (number, x)

/-- A block has a number. -/
def Labelled (m : Builder) (i number : Nat) : Prop :=
  ∃ b, m.blocks[i]? = some b ∧ b.number = number

theorem labelled_add : (m.add x).Labelled i n ↔ m.Labelled i n := by
  rw [Labelled, Labelled, getElem?_add]
  split
  · cases m.blocks[i]? <;> simp [Block.grown]
  · rfl

/-- Where an instruction that is added goes. -/
def next (m : Builder) : Nat := (m.blocks[m.current]?.map fun b => b.code.size).getD 0

theorem holds_add : (m.add x).Holds i k n y ↔
    m.Holds i k n y ∨
      Placed m ∧ i = m.current ∧ k = m.next ∧ n = m.counter + 1 ∧ y = x := by
  rw [Holds, Holds, getElem?_add, Placed]
  by_cases here : m.current = i
  · subst here
    rw [if_pos rfl, next]
    cases found : m.blocks[m.current]? with
    | none =>
      have past : m.blocks.size ≤ m.current := Array.getElem?_eq_none_iff.mp found
      simp [Nat.not_lt.mpr past]
    | some b =>
      have lt : m.current < m.blocks.size := (Array.getElem?_eq_some_iff.mp found).1
      simp only [Option.map_some, Option.some.injEq, exists_eq_left', Block.grown,
        Array.getElem?_push, lt, true_and, Option.getD_some]
      by_cases last : k = b.code.size
      · subst last
        simp [eq_comm]
      · simp [last]
  · have other : i ≠ m.current := Ne.symm here
    simp [here, other]

theorem labelled_withBlock :
    m.withBlock.Labelled i n ↔ m.Labelled i n ∨ i = m.blocks.size ∧ n = m.counter + 1 := by
  rw [Labelled, Labelled, getElem?_withBlock]
  by_cases last : i = m.blocks.size
  · subst last
    simp [eq_comm]
  · simp [last]

theorem holds_withBlock : m.withBlock.Holds i k n x ↔ m.Holds i k n x := by
  rw [Holds, Holds, getElem?_withBlock]
  by_cases last : i = m.blocks.size
  · subst last
    simp
  · simp [last]

theorem Changed.holds (h : Changed m m') (stands : m.Holds i k n x) : m'.Holds i k n x := by
  induction h with
  | refl => exact stands
  | add _ _ ih => exact holds_add.mpr (.inl ih)
  | withBlock _ ih => exact holds_withBlock.mpr ih
  | moved _ _ ih | declare _ ih => exact ih

theorem Changed.labelled (h : Changed m m') (stands : m.Labelled i n) : m'.Labelled i n := by
  induction h with
  | refl => exact stands
  | add _ _ ih => exact labelled_add.mpr ih
  | withBlock _ ih => exact labelled_withBlock.mpr (.inl ih)
  | moved _ _ ih | declare _ ih => exact ih

/-- What has been added has a new number. -/
theorem Changed.holds_old (h : Changed m m') (stands : m'.Holds i k n x) :
    m.Holds i k n x ∨ m.counter < n := by
  induction h with
  | refl => exact .inl stands
  | add _ before ih =>
    rcases holds_add.mp stands with stands | ⟨-, -, -, rfl, -⟩
    · exact ih stands
    · exact .inr (Nat.lt_succ_of_le before.counter_le)
  | withBlock _ ih => exact ih (holds_withBlock.mp stands)
  | moved _ _ ih | declare _ ih => exact ih stands

theorem Holds.lt (h : m.Holds i k n x) : i < m.blocks.size := by
  obtain ⟨b, found, -⟩ := h
  exact (Array.getElem?_eq_some_iff.mp found).1

/-- What stands where the builder is stands before what is added next. -/
theorem Holds.lt_next (h : m.Holds m.current k n x) : k < m.next := by
  obtain ⟨b, found, stands⟩ := h
  rw [next, found]
  exact (Array.getElem?_eq_some_iff.mp stands).1

/-! ### Every number at one place -/

/-- Every number stands at one place, and none of them is above the counter. -/
structure Numbered (m : Builder) : Prop where
  labelled_inj : ∀ {i j n}, m.Labelled i n → m.Labelled j n → i = j
  holds_inj : ∀ {i k j l n x y}, m.Holds i k n x → m.Holds j l n y → i = j ∧ k = l
  apart : ∀ {i j k n x}, m.Labelled i n → ¬ m.Holds j k n x
  labelled_le : ∀ {i n}, m.Labelled i n → n ≤ m.counter
  holds_le : ∀ {i k n x}, m.Holds i k n x → n ≤ m.counter

theorem not_holds_empty : ¬ empty.Holds i k n x := by
  rintro ⟨b, found, stands⟩
  obtain ⟨lt, rfl⟩ := Array.getElem?_eq_some_iff.mp found
  obtain rfl : i = 0 := Nat.lt_one_iff.mp lt
  cases stands

theorem numbered_empty : Numbered empty := by
  have labelled {i n : Nat} (h : empty.Labelled i n) : i = 0 ∧ n = 2 := by
    obtain ⟨b, found, rfl⟩ := h
    obtain ⟨lt, rfl⟩ := Array.getElem?_eq_some_iff.mp found
    obtain rfl : i = 0 := Nat.lt_one_iff.mp lt
    exact ⟨rfl, rfl⟩
  exact ⟨fun h h' => (labelled h).1.trans (labelled h').1.symm, fun h => absurd h not_holds_empty,
    fun _ => not_holds_empty, fun h => Nat.le_of_eq (labelled h).2,
    fun h => absurd h not_holds_empty⟩

theorem Numbered.add (h : Numbered m) (x : Instr) : Numbered (m.add x) where
  labelled_inj first second :=
    h.labelled_inj (labelled_add.mp first) (labelled_add.mp second)
  holds_inj first second := by
    rcases holds_add.mp first with first | ⟨-, rfl, rfl, rfl, rfl⟩
    · rcases holds_add.mp second with second | ⟨-, -, -, rfl, -⟩
      · exact h.holds_inj first second
      · exact absurd (h.holds_le first) (Nat.not_succ_le_self _)
    · rcases holds_add.mp second with second | ⟨-, rfl, rfl, -, -⟩
      · exact absurd (h.holds_le second) (Nat.not_succ_le_self _)
      · exact ⟨rfl, rfl⟩
  apart block instr := by
    rcases holds_add.mp instr with instr | ⟨-, -, -, rfl, -⟩
    · exact h.apart (labelled_add.mp block) instr
    · exact absurd (h.labelled_le (labelled_add.mp block)) (Nat.not_succ_le_self _)
  labelled_le block := Nat.le_succ_of_le (h.labelled_le (labelled_add.mp block))
  holds_le instr := by
    rcases holds_add.mp instr with instr | ⟨-, -, -, rfl, -⟩
    · exact Nat.le_succ_of_le (h.holds_le instr)
    · exact Nat.le_refl _

theorem Numbered.withBlock (h : Numbered m) : Numbered m.withBlock where
  labelled_inj first second := by
    rcases labelled_withBlock.mp first with first | ⟨rfl, rfl⟩
    · rcases labelled_withBlock.mp second with second | ⟨-, rfl⟩
      · exact h.labelled_inj first second
      · exact absurd (h.labelled_le first) (Nat.not_succ_le_self _)
    · rcases labelled_withBlock.mp second with second | ⟨rfl, -⟩
      · exact absurd (h.labelled_le second) (Nat.not_succ_le_self _)
      · rfl
  holds_inj first second := h.holds_inj (holds_withBlock.mp first) (holds_withBlock.mp second)
  apart block instr := by
    rcases labelled_withBlock.mp block with block | ⟨-, rfl⟩
    · exact h.apart block (holds_withBlock.mp instr)
    · exact absurd (h.holds_le (holds_withBlock.mp instr)) (Nat.not_succ_le_self _)
  labelled_le block := by
    rcases labelled_withBlock.mp block with block | ⟨-, rfl⟩
    · exact Nat.le_succ_of_le (h.labelled_le block)
    · exact Nat.le_refl _
  holds_le instr := Nat.le_succ_of_le (h.holds_le (holds_withBlock.mp instr))

theorem Changed.numbered (h : Changed m m') (numbered : Numbered m) : Numbered m' := by
  induction h with
  | refl => exact numbered
  | add x _ ih => exact ih.add x
  | withBlock _ ih => exact ih.withBlock
  | moved _ _ ih | declare _ ih => exact ⟨ih.1, ih.2, ih.3, ih.4, ih.5⟩

/-! ### What was added -/

section
variable {q : Nat → Nat → Instr → Prop} {lo mid hi : Nat}

/-- A property of all instructions with numbers above `lo` and up to `hi`, and of their places. -/
def AllBetween (f : Builder) (q : Nat → Nat → Instr → Prop) (lo hi : Nat) : Prop :=
  ∀ i k n x, f.Holds i k n x → lo < n → n ≤ hi → q i k x

theorem allBetween_self : AllBetween f q lo lo := by
  intro i k n x _ above upTo
  omega

theorem allBetween_split (le : lo ≤ mid) (le' : mid ≤ hi) :
    AllBetween f q lo hi ↔ AllBetween f q lo mid ∧ AllBetween f q mid hi := by
  constructor
  · intro all
    exact ⟨fun i k n x stands above upTo => all i k n x stands above (by omega),
      fun i k n x stands above upTo => all i k n x stands (by omega) upTo⟩
  · rintro ⟨first, second⟩ i k n x stands above upTo
    rcases Nat.lt_or_ge mid n with later | earlier
    · exact second i k n x stands later upTo
    · exact first i k n x stands above earlier

/-- An instruction that is added is the only one with its number. -/
theorem allBetween_add (placed : Placed m) (later : Changed (m.add x) f) (numbered : Numbered f) :
    AllBetween f q m.counter (m.counter + 1) ↔ q m.current m.next x := by
  have added : f.Holds m.current m.next (m.counter + 1) x :=
    later.holds (holds_add.mpr (.inr ⟨placed, rfl, rfl, rfl, rfl⟩))
  constructor
  · intro all
    exact all _ _ _ _ added (Nat.lt_succ_self _) (Nat.le_refl _)
  · intro here i k n y stands above upTo
    obtain rfl : n = m.counter + 1 := by omega
    obtain ⟨rfl, rfl⟩ := numbered.holds_inj stands added
    obtain ⟨b, found, stands⟩ := stands
    obtain ⟨b', found', added⟩ := added
    cases found.symm.trans found'
    cases stands.symm.trans added
    exact here

/-- A block takes a number that no instruction has. -/
theorem allBetween_withBlock (later : Changed m.withBlock f) (numbered : Numbered f) :
    AllBetween f q m.counter (m.counter + 1) := by
  intro i k n x stands above upTo
  obtain rfl : n = m.counter + 1 := by omega
  have block := later.labelled (labelled_withBlock.mpr (.inr ⟨rfl, rfl⟩))
  exact absurd stands (numbered.apart block)

end

end ScriptLang.IR.Builder
