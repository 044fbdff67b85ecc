import ScriptLang.Proofs.IR.Dominance
import ScriptLang.Proofs.IR.Sites

/-!
The builder and the text.

`Fits` ties what is known at a place of the text to the builder when it comes there: a variable that
was made in a block around has its address in a block that dominates the current one, and no other
variable has. It is kept by statements without blocks (`Fits.straight`, `Fits.declare`), and where
the builder moves to another block (`Fits.leave`).
-/

namespace ScriptLang.IR.Builder

variable {f m m' m₁ m₂ m₃ : Builder} {k k' k₁ k₂ : Knowledge} {e : Expr} {x : String} {v : Operand}

/-! ### Variables -/

/-- Variables keep their addresses, and new ones have new addresses. -/
structure Declares (m m' : Builder) : Prop where
  le : m.counter ≤ m'.counter
  vars : ∀ x, m'.vars.lookup? x = m.vars.lookup? x ∨
    m.vars.lookup? x = none ∧ ∃ v, m'.vars.lookup? x = some (some v) ∧ m.counter < v.slot.number

theorem declares_of_vars (changed : Changed m m') (same : m'.vars = m.vars) : Declares m m' :=
  ⟨changed.counter_le, fun _ => .inl (by rw [same])⟩

theorem Declares.trans (h : Declares m m₁) (h' : Declares m₁ m₂) : Declares m m₂ := by
  refine ⟨Nat.le_trans h.le h'.le, fun x => ?_⟩
  rcases h'.vars x with same | ⟨none, v, found, new⟩
  · rw [same]
    exact h.vars x
  · rcases h.vars x with same | ⟨-, v', found', -⟩
    · exact .inr ⟨same.symm.trans none, v, found, Nat.lt_of_le_of_lt h.le new⟩
    · rw [none] at found'
      cases found'

theorem Declares.turned (h : Declares m m') (t p : Nat) : Declares m (m'.turned t p) :=
  h.trans (declares_of_vars (.turned .refl t p) rfl)

theorem Declares.parted (h : Declares m m') (v : Operand) (s t p : Nat) :
    Declares m (m'.parted v s t p) :=
  h.trans (declares_of_vars (.parted .refl v s t p) rfl)

theorem declares_withBlocks (m : Builder) : Declares m m.withBlocks :=
  declares_of_vars (.withBlocks .refl) rfl

theorem Computes.vars {v : Option (Typed Operand)} (h : Computes e m v m') : m'.vars = m.vars := by
  induction h with
  | integer | real | bool | name => rfl
  | group _ ih | plus _ _ _ ih | noUnary _ ih | minus _ _ _ ih | tilde _ _ _ ih => exact ih
  | arithmetic _ _ _ _ ih ih' | comparison _ _ _ _ ih ih' | logical _ _ _ ih ih'
  | noBinary _ _ ih ih' | noLogical _ _ _ ih ih' => exact ih'.trans ih

theorem Computes.declares {v : Option (Typed Operand)} (h : Computes e m v m') : Declares m m' :=
  declares_of_vars h.straight.changed h.vars

theorem Line.declares {s : Stmt} (h : Line s m m') : Declares m m' := by
  cases h with
  | passed => exact declares_of_vars .refl rfl
  | print computed | old _ computed _ =>
    exact computed.declares.trans (declares_of_vars (.add _ .refl) rfl)
  | @new _ x _ _ v m₁ _ computed fresh =>
    refine computed.declares.trans ⟨Nat.le_add_right _ 2, fun y => ?_⟩
    change (m₁.vars.put x _).lookup? y = _ ∨ _ ∧ ∃ v, (m₁.vars.put x _).lookup? y = _ ∧ _
    rw [Table.lookup?_put]
    by_cases same : x = y
    · subst same
      exact .inr ⟨fresh, ⟨v.declared, ⟨m₁.counter + 1, v.declared.ty⟩⟩, if_pos rfl,
        Nat.lt_succ_self _⟩
    · exact .inl (if_neg same)

theorem Builds.declares {ss : List Stmt} (h : Builds ss m m') : Declares m m' := by
  induction h with
  | nil => exact declares_of_vars .refl rfl
  | line one _ ih => exact one.declares.trans ih
  | branch tested _ _ _ ih₁ ih₂ ih₃ =>
    have first := ((tested.declares.trans (declares_withBlocks _)).parted _ _ _ _).trans ih₁
    have second := (first.turned _ _).trans ih₂
    exact (second.turned _ _).trans ih₃
  | loop tested _ _ ih₁ ih₂ =>
    have test := ((declares_withBlocks _).turned _ _).trans tested.declares
    have body := (test.parted _ _ _ _).trans ih₁
    exact (body.turned _ _).trans ih₂

/-! ### What is known -/

/-- What is known at a place of the text, when the builder has come to it. -/
structure Fits (f : Builder) (k : Knowledge) (m : Builder) : Prop where
  numbered : Numbered m
  unmade : ∀ x, k.made.lookup? x = none → m.vars.lookup? x = none
  made : ∀ x d, k.made.lookup? x = some d → ∃ slot i l,
    m.vars.lookup? x = some (some ⟨d, ⟨slot, d.ty⟩⟩) ∧ m.Holds i l slot (.alloca d.ty) ∧
      (x ∈ k.around ↔ Dominates f i m.current)
  around : ∀ x ∈ k.around, ∃ d, k.made.lookup? x = some d
  way : Within f (· < m.blocks.size) 0 m.current

theorem fits_empty (f : Builder) : Fits f .none empty where
  numbered := numbered_empty
  unmade _ _ := rfl
  made _ _ found := by cases found
  around _ mem := by cases mem
  way := .refl Nat.one_pos

theorem Fits.straight (h : Fits f k m) (straight : Straight m m') (same : m'.vars = m.vars) :
    Fits f k m' where
  numbered := straight.changed.numbered h.numbered
  unmade x none := by
    rw [same]
    exact h.unmade x none
  made x d found := by
    obtain ⟨slot, i, l, known, stands, dominates⟩ := h.made x d found
    rw [same, straight.current]
    exact ⟨slot, i, l, known, straight.changed.holds stands, dominates⟩
  around := h.around
  way := by
    rw [straight.current, straight.size]
    exact h.way

/-- A variable with an address has been made, with the same type. -/
theorem Fits.made_of_vars (h : Fits f k m) {v : Variable Pointer}
    (found : m.vars.lookup? x = some (some v)) :
    k.made.lookup? x = some v.declared ∧ v.slot.ty = v.declared.ty ∧
      ∃ i l, m.Holds i l v.slot.number (.alloca v.declared.ty) ∧
        (x ∈ k.around ↔ Dominates f i m.current) := by
  cases known : k.made.lookup? x with
  | none =>
    rw [h.unmade x known] at found
    cases found
  | some d =>
    obtain ⟨slot, i, l, found', stands, dominates⟩ := h.made x d known
    cases found.symm.trans found'
    exact ⟨rfl, rfl, i, l, stands, dominates⟩

/-- The types that are declared in the text are those of the values. -/
theorem Computes.declared {v : Option (Typed Operand)} {a : Typed Operand} (h : Computes e m v m')
    (fits : Fits f k m) (given : v = some a) : k.declared? e = some a.declared := by
  induction h with
  | integer | real | bool =>
    cases given
    rfl
  | group _ ih => exact ih fits given
  | name found =>
    cases given
    exact (fits.made_of_vars found).1
  | arithmetic _ _ found =>
    cases given
    simp [Knowledge.declared?, found]
  | comparison _ _ none compares =>
    cases given
    simp [Knowledge.declared?, none, compares]
  | minus _ kind =>
    cases given
    simp [Knowledge.declared?, kind]
  | plus _ kind number =>
    cases given
    simp [Knowledge.declared?, kind, number]
  | tilde _ kind =>
    cases given
    simp [Knowledge.declared?, kind]
  | logical _ _ found =>
    cases given
    simp [Knowledge.declared?, found]
  | noBinary | noUnary | noLogical => cases given

/-- What is known still fits after a variable was made. -/
theorem Fits.declare (fits : Fits f k m) {d : Declared} {o : Operand} (placed : Placed m)
    (declared : k.declared? e = some d) (fresh : m.vars.lookup? x = none) :
    Fits f (k.assign x e)
      (((m.add (.alloca d.ty)).add (.store o (m.counter + 1))).declare x
        ⟨d, ⟨m.counter + 1, d.ty⟩⟩) := by
  have unmade : k.made.lookup? x = none := by
    cases known : k.made.lookup? x with
    | none => rfl
    | some d' =>
      obtain ⟨_, _, _, found, -⟩ := fits.made x d' known
      cases fresh.symm.trans found
  have assigned : k.assign x e = ⟨k.made.put x d, x :: k.around⟩ := by
    simp [Knowledge.assign, unmade, declared]
  have straight : Straight m ((m.add (.alloca d.ty)).add (.store o (m.counter + 1))) :=
    (Straight.refl.add rfl).add rfl
  have before := fits.straight straight rfl
  rw [assigned]
  refine ⟨(Changed.refl.declare).numbered before.numbered, fun y none => ?_, fun y d' found => ?_,
    fun y mem => ?_, before.way⟩
  · change (m.vars.put x _).lookup? y = _
    rw [Table.lookup?_put] at none ⊢
    split at none
    · cases none
    · next other => rw [if_neg other, fits.unmade y none]
  · change ∃ slot i l, (m.vars.put x _).lookup? y = _ ∧ _
    rw [Table.lookup?_put] at found ⊢
    split at found
    · next same =>
        cases found
        subst same
        have stands :
            (m.add (.alloca d.ty)).Holds m.current m.next (m.counter + 1) (.alloca d.ty) :=
          holds_add.mpr (.inr ⟨placed, rfl, rfl, rfl, rfl⟩)
        exact ⟨m.counter + 1, m.current, m.next, if_pos rfl, holds_add.mpr (.inl stands),
          iff_of_true List.mem_cons_self (dominates_self f _)⟩
    · next other =>
        obtain ⟨slot, i, l, known, stands, dominates⟩ := before.made y d' found
        refine ⟨slot, i, l, (if_neg other).trans known, stands, ?_⟩
        rw [List.mem_cons, or_iff_right (Ne.symm other)]
        exact dominates
  · rw [Table.lookup?_put]
    rcases List.mem_cons.mp mem with rfl | mem
    · exact ⟨d, if_pos rfl⟩
    · split
      · exact ⟨d, rfl⟩
      · exact fits.around y mem

/-! ### From block to block -/

/-- A variable that was made by some statements stands in the block they start at or in a new
one. -/
theorem Framed.place (h : Framed m m') (declares : Declares m m') (numbered : Numbered m)
    {u : Variable Pointer} {i l : Nat} {y : Instr} (none : m.vars.lookup? x = none)
    (found : m'.vars.lookup? x = some (some u)) (stands : m'.Holds i l u.slot.number y) :
    i = m.current ∨ m.blocks.size ≤ i := by
  have new : m.counter < u.slot.number := by
    rcases declares.vars x with same | ⟨-, u', found', new⟩
    · cases none.symm.trans (same.symm.trans found)
    · cases found.symm.trans found'
      exact new
  by_cases old : i < m.blocks.size ∧ i ≠ m.current
  · obtain ⟨b, at_i, stands⟩ := stands
    rw [h.touches.others i old.1 old.2] at at_i
    have le := numbered.holds_le ⟨b, at_i, stands⟩
    omega
  · omega

/-- The builder leaves a block of the text for another block of the module, which is dominated by
the same old blocks as the one before the block of the text, and by no new one. -/
theorem Fits.leave {m'' : Builder} (start : Fits f k m) (last : Fits f k' m')
    (changed : Changed m m') (declares : Declares m m') (onward : Changed m' m'')
    (vars : m''.vars = m'.vars)
    (old : ∀ i < m.blocks.size, (Dominates f i m''.current ↔ Dominates f i m.current))
    (new : ∀ x v i l, m.vars.lookup? x = none → m'.vars.lookup? x = some (some v) →
      m'.Holds i l v.slot.number (.alloca v.declared.ty) → ¬ Dominates f i m''.current)
    (way : Within f (· < m''.blocks.size) 0 m''.current) : Fits f (k.leave k') m'' where
  numbered := onward.numbered last.numbered
  unmade x none := by
    rw [vars]
    exact last.unmade x none
  made x d found := by
    obtain ⟨slot, i, l, known, stands, -⟩ := last.made x d found
    refine ⟨slot, i, l, by rw [vars, known], onward.holds stands, ?_⟩
    change x ∈ k.around ↔ _
    cases before : k.made.lookup? x with
    | none =>
      have notAround : x ∉ k.around := by
        intro mem
        obtain ⟨d', found'⟩ := start.around x mem
        cases before.symm.trans found'
      exact iff_of_false notAround (new x _ i l (start.unmade x before) known stands)
    | some d' =>
      obtain ⟨slot', i', l', known', stands', dominates⟩ := start.made x d' before
      have kept : m'.vars.lookup? x = m.vars.lookup? x := by
        rcases declares.vars x with same | ⟨none, -⟩
        · exact same
        · cases none.symm.trans known'
      rw [kept, known'] at known
      cases known
      obtain ⟨rfl, rfl⟩ := last.numbered.holds_inj (changed.holds stands') stands
      rw [dominates, old i' stands'.lt]
  around x mem := by
    obtain ⟨d, found⟩ := start.around x mem
    obtain ⟨slot, i, l, known, -⟩ := start.made x d found
    cases after : k'.made.lookup? x with
    | some d' => exact ⟨d', after⟩
    | none =>
      have gone := last.unmade x after
      rcases declares.vars x with same | ⟨none, -⟩
      · cases known.symm.trans (same.symm.trans gone)
      · cases known.symm.trans none
  way := way

/-! ### Branches -/

/-- A branch in a later module, with the regions of its blocks and the one block that it is entered
from. -/
structure Arms (f m₁ m₂ m₃ : Builder) (v : Operand) : Prop extends Fork f m₁ m₂ m₃ v where
  one : Region f m₁.blocks.size m₂.current (m₁.blocks.size + 3) m₂.blocks.size
  two : Region f (m₁.blocks.size + 1) m₃.current m₂.blocks.size m₃.blocks.size
  entered : Entered f m₁.current (m₁.blocks.size + 2) m₁.blocks.size m₃.blocks.size

theorem arms_of_builds {ss ss₁ ss₂ : List Stmt} (isOpen : Open m₁)
    (b₁ : Builds ss₁ (m₁.thenStart v) m₂) (b₂ : Builds ss₂ (m₁.elseStart m₂) m₃)
    (b₃ : Builds ss (m₁.exitStart m₃) m') (numbered : Numbered f) (later : Precedes m' f)
    (entered : Entered f m₁.current m'.current m₁.blocks.size m'.blocks.size) :
    Arms f m₁ m₂ m₃ v ∧
      Entered f (m₁.exitStart m₃).current m'.current (m₁.exitStart m₃).blocks.size
        m'.blocks.size := by
  have inThen := open_thenStart isOpen v
  have first := b₁.framed inThen
  have inElse := open_elseStart isOpen first
  have second := b₂.framed inElse
  have exits := open_exitStart isOpen first second
  have fork := fork_of_framed isOpen first second ((b₃.framed exits).touches.precedes.trans later)
  have one := b₁.region inThen fork.later₂
  have two := b₂.region inElse fork.later₃
  have three := b₃.region exits later
  simp only [size_turned, size_parted, size_withBlocks, current_turned, current_parted]
    at one two three ⊢
  exact ⟨⟨fork, one, two, entered.first numbered three⟩,
    entered.second numbered (.branch fork.branches one fork.jumps two fork.jumps')⟩

namespace Arms

variable (arms : Arms f m₁ m₂ m₃ v)
include arms

theorem region : Region f m₁.current (m₁.blocks.size + 2) m₁.blocks.size m₃.blocks.size :=
  .branch arms.branches arms.one arms.jumps arms.two arms.jumps'

/-- The blocks of a branch are dominated by the same old blocks as the one before it. -/
theorem dominates_iff {i u : Nat} (old : i < m₁.blocks.size) (le : m₁.blocks.size ≤ u)
    (lt : u < m₃.blocks.size) : Dominates f i u ↔ Dominates f i m₁.current := by
  have pos : 0 < m₁.blocks.size := Nat.zero_lt_of_lt arms.isOpen.lt
  exact arms.entered.dominates_iff pos (arms.region.within (.inr ⟨le, lt⟩)) le lt old

theorem enteredThen (numbered : Numbered f) :
    Entered f (m₁.thenStart v).current m₂.current (m₁.thenStart v).blocks.size m₂.blocks.size := by
  rw [current_parted, size_parted, size_withBlocks]
  exact arms.entered.thenPart numbered arms.branches arms.one arms.jumps arms.two arms.jumps'

theorem enteredElse (numbered : Numbered f) :
    Entered f (m₁.elseStart m₂).current m₃.current (m₁.elseStart m₂).blocks.size
      m₃.blocks.size := by
  rw [current_turned, size_turned]
  exact arms.entered.elsePart numbered arms.branches arms.one arms.jumps arms.two arms.jumps'

variable (fits : Fits f k m₁)
include fits

theorem fitsThen : Fits f k (m₁.thenStart v) := by
  have le := arms.one.le
  have le' := arms.two.le
  refine fits.leave fits .refl (declares_of_vars .refl rfl)
    (Changed.withBlocks .refl |>.parted _ _ _ _) rfl (fun i lt => ?_) ?_ ?_
  · rw [current_parted]
    exact arms.dominates_iff lt (Nat.le_refl _) (by omega)
  · intro x u i l none found
    cases none.symm.trans found
  · rw [size_parted, size_withBlocks, current_parted]
    refine (fits.way.mono fun i lt => ?_).step arms.branches.left (by omega)
    omega

variable (declares : Declares (m₁.thenStart v) m₂) (last : Fits f k₁ m₂)
include declares last

theorem fitsElse : Fits f (k.leave k₁) (m₁.elseStart m₂) := by
  have le := arms.one.le
  have le' := arms.two.le
  have start : Changed m₁ (m₁.thenStart v) := Changed.withBlocks .refl |>.parted _ _ _ _
  refine fits.leave last (start.trans arms.first.touches.changed)
    ((declares_of_vars start rfl).trans declares) (.turned .refl _ _) rfl (fun i lt => ?_) ?_ ?_
  · rw [current_turned]
    exact arms.dominates_iff lt (by omega) (by omega)
  · intro x u i l none found stands
    have place := arms.first.place declares (start.numbered fits.numbered) none found stands
    rw [current_parted, size_parted, size_withBlocks] at place
    -- The way past the first block.
    have way : Within f (fun j => j < m₁.blocks.size ∨ j = m₁.blocks.size + 1) 0
        (m₁.blocks.size + 1) :=
      (fits.way.mono fun _ => .inl).step arms.branches.right (.inr rfl)
    exact way.not_dominates (by omega)
  · rw [size_turned, current_turned]
    refine (fits.way.mono fun i lt => ?_).step arms.branches.right (by omega)
    omega

variable (declares' : Declares (m₁.elseStart m₂) m₃) (last' : Fits f k₂ m₃)
include declares' last'

/-- After a branch no variable that was made in it can be relied on: there is a way through the
other block. -/
theorem fitsExit : Fits f (k.leave k₂) (m₁.exitStart m₃) := by
  have le := arms.one.le
  have le' := arms.two.le
  have start : Changed m₁ (m₁.thenStart v) := Changed.withBlocks .refl |>.parted _ _ _ _
  have onward : Changed m₂ m₃ := (Changed.turned .refl _ _).trans arms.second.touches.changed
  have both : Declares m₁ m₃ :=
    ((declares_of_vars start rfl).trans declares).turned _ _ |>.trans declares'
  refine fits.leave last' ((start.trans arms.first.touches.changed).trans onward) both
    (.turned .refl _ _) rfl (fun i lt => ?_) ?_ ?_
  · rw [current_turned]
    exact arms.dominates_iff lt (by omega) (by omega)
  · intro x u i l none found stands
    rw [current_turned]
    rcases declares'.vars x with same | ⟨none', -⟩
    · -- Made in the first block.
      have found' : m₂.vars.lookup? x = some (some u) := same.symm.trans found
      obtain ⟨-, -, i', l', stands', -⟩ := last.made_of_vars found'
      have place := arms.first.place declares (start.numbered fits.numbered) none found' stands'
      have lt := stands'.lt
      rw [current_parted, size_parted, size_withBlocks] at place
      obtain ⟨rfl, -⟩ := last'.numbered.holds_inj (onward.holds stands') stands
      refine (fits.way.across arms.branches.right arms.two arms.jumps'.edge).not_dominates ?_
      simp only [Inside]
      omega
    · -- Made in the second block.
      have atElse : Changed m₂ (m₁.elseStart m₂) := .turned .refl _ _
      have place := arms.second.place declares' (atElse.numbered last.numbered) none' found stands
      rw [current_turned, size_turned] at place
      refine (fits.way.across arms.branches.left arms.one arms.jumps.edge).not_dominates ?_
      simp only [Inside]
      omega
  · have lt : m₁.current < m₁.blocks.size := arms.isOpen.lt
    have exits := arms.region.within arms.region.last
    rw [size_turned, current_turned]
    refine (fits.way.mono fun i lt => ?_).trans (exits.mono fun i inside => ?_)
    · omega
    · simp only [Inside] at inside
      omega

end Arms

/-! ### Loops -/

/-- A loop in a later module, with the region of its body and the one block that it is entered
from. -/
structure Round (f m m₁ m₂ : Builder) (v : Operand) : Prop extends Cycle f m m₁ m₂ v where
  inner : Region f (m.blocks.size + 1) m₂.current (m.blocks.size + 3) m₂.blocks.size
  entered : Entered f m.current (m.blocks.size + 2) m.blocks.size m₂.blocks.size

theorem round_of_builds {ss ss₁ : List Stmt} (isOpen : Open m) (tested : Straight m.testStart m₁)
    (b₁ : Builds ss₁ (m.bodyStart m₁ v) m₂) (b₂ : Builds ss (m.loopExit m₂) m')
    (numbered : Numbered f) (later : Precedes m' f)
    (entered : Entered f m.current m'.current m.blocks.size m'.blocks.size) :
    Round f m m₁ m₂ v ∧
      Entered f (m.loopExit m₂).current m'.current (m.loopExit m₂).blocks.size m'.blocks.size := by
  have inBody := open_bodyStart isOpen tested (v := v)
  have body := b₁.framed inBody
  have exits := open_loopExit isOpen tested body
  have cycle := cycle_of_framed isOpen tested body ((b₂.framed exits).touches.precedes.trans later)
  have inner := b₁.region inBody cycle.later₂
  have rest := b₂.region exits later
  simp only [size_turned, size_parted, cycle.size, current_turned, current_parted] at inner rest ⊢
  exact ⟨⟨cycle, inner, entered.first numbered rest⟩,
    entered.second numbered (.loop cycle.jumps cycle.branches inner cycle.jumps')⟩

namespace Round

variable (round : Round f m m₁ m₂ v)
include round

theorem region : Region f m.current (m.blocks.size + 2) m.blocks.size m₂.blocks.size :=
  .loop round.jumps round.branches round.inner round.jumps'

/-- The blocks of a loop are dominated by the same old blocks as the one before it. -/
theorem dominates_iff {i u : Nat} (old : i < m.blocks.size) (le : m.blocks.size ≤ u)
    (lt : u < m₂.blocks.size) : Dominates f i u ↔ Dominates f i m.current := by
  have pos : 0 < m.blocks.size := Nat.zero_lt_of_lt round.isOpen.lt
  exact round.entered.dominates_iff pos (round.region.within (.inr ⟨le, lt⟩)) le lt old

theorem enteredBody (numbered : Numbered f) :
    Entered f (m.bodyStart m₁ v).current m₂.current (m.bodyStart m₁ v).blocks.size
      m₂.blocks.size := by
  rw [current_parted, size_parted, round.size]
  exact round.entered.bodyPart numbered round.jumps round.branches round.inner round.jumps'

variable (fits : Fits f k m)
include fits

theorem fitsTest : Fits f k m.testStart := by
  have le := round.inner.le
  refine fits.leave fits .refl (declares_of_vars .refl rfl)
    (Changed.withBlocks .refl |>.turned _ _) rfl (fun i lt => ?_) ?_ ?_
  · rw [current_turned]
    exact round.dominates_iff lt (Nat.le_refl _) (by omega)
  · intro x u i l none found
    cases none.symm.trans found
  · rw [size_turned, size_withBlocks, current_turned]
    refine (fits.way.mono fun i lt => ?_).step round.jumps.edge (by omega)
    omega

variable (vars : m₁.vars = m.vars)
include vars

theorem fitsBody : Fits f k (m.bodyStart m₁ v) := by
  have le := round.inner.le
  have size := round.size
  have last := (round.fitsTest fits).straight round.tested vars
  have changed : Changed m m₁ := (Changed.withBlocks .refl |>.turned _ _).trans round.tested.changed
  refine fits.leave last changed (declares_of_vars changed vars) (.parted .refl _ _ _ _) rfl
    (fun i lt => ?_) ?_ ?_
  · rw [current_parted]
    exact round.dominates_iff lt (by omega) (by omega)
  · intro x u i l none found
    rw [vars] at found
    cases none.symm.trans found
  · rw [size_parted, current_parted]
    refine ((fits.way.mono fun i lt => ?_).step round.jumps.edge ?_).step round.branches.left ?_
    all_goals omega

variable (declares : Declares (m.bodyStart m₁ v) m₂) (last : Fits f k₁ m₂)
include declares last

/-- After a loop no variable that was made in its body can be relied on: there is a way past it. -/
theorem fitsExit : Fits f (k.leave k₁) (m.loopExit m₂) := by
  have le := round.inner.le
  have size := round.size
  have start : Changed m (m.bodyStart m₁ v) :=
    (Changed.withBlocks .refl |>.turned _ _).trans round.tested.changed |>.parted _ _ _ _
  refine fits.leave last (start.trans round.body.touches.changed)
    ((declares_of_vars start vars).trans declares) (.turned .refl _ _) rfl (fun i lt => ?_) ?_ ?_
  · rw [current_turned]
    exact round.dominates_iff lt (by omega) (by omega)
  · intro x u i l unmade found stands
    have unmade' : (m.bodyStart m₁ v).vars.lookup? x = none := by
      rw [← unmade, ← vars]
      rfl
    have place := round.body.place declares (start.numbered fits.numbered) unmade' found stands
    rw [current_parted, size_parted, size] at place
    rw [current_turned]
    have test : Region f m.blocks.size m.blocks.size 0 0 := .line
    refine (fits.way.across round.jumps.edge test round.branches.right).not_dominates ?_
    simp only [Inside]
    omega
  · rw [size_turned, current_turned]
    refine ((fits.way.mono fun i lt => ?_).step round.jumps.edge ?_).step round.branches.right ?_
    all_goals omega

end Round

end ScriptLang.IR.Builder
