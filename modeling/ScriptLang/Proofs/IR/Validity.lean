import Mathlib
import ScriptLang.Proofs.IR.Fitting

/-!
Valid modules.

A property of instructions and their places can be decided by tests of the text (`Judges`). One
induction over the building carries the tests from expressions to whole programs; it is used for the
pointers of loads and stores and for the operands of connectives.
-/

namespace ScriptLang.IR

/-- The register with the address that an instruction goes through. -/
def Instr.pointer? : Instr → Option Nat
  | .store _ slot | .load _ slot => some slot
  | _ => none

namespace Builder

variable {f m m' m₁ m₂ m₃ : Builder} {k : Knowledge} {e : Expr} {x : String}

/-! ### Tests of the text for properties of the instructions -/

/-- An instruction that goes through no pointer and connects nothing. -/
def plain : Instr → Bool
  | .load _ _ | .store _ _ => false
  | .binary op _ _ => op ≠ .and && op ≠ .or
  | _ => true

/-- An expression whose own instruction, if it has one, is plain. -/
def silent : Expr → Bool
  | .name _ _ => false
  | .logical op _ _ _ => (connective? op.kind).isNone
  | _ => true

theorem plain_of_arithmetic {kind : Kind} {o : BinaryOp} (found : arithmetic? kind = some o)
    (a b : Operand) : plain (.binary o a b) = true := by
  unfold arithmetic? at found
  split at found <;> cases found <;> rfl

/-- A property of instructions and their places in a finished module, and tests of the expressions
and of the targets of assignments in the text that decide it. -/
structure Judges (f : Builder) (q : Nat → Nat → Instr → Prop) (t : Knowledge → Expr → Bool)
    (w : Knowledge → String → Bool) : Prop where
  numbered : Numbered f
  name : ∀ {k m x v line}, Fits f k m → m.vars.lookup? x = some (some v) → Changed m f →
    (q m.current m.next (.load v.slot.ty v.slot.number) ↔ t k (.name x line) = true)
  connective : ∀ {k m l r m₁ m₂ op o line} {a b : Typed Operand}, Fits f k m →
    Computes l m (some a) m₁ → Computes r m₁ (some b) m₂ → connective? op.kind = some o →
    l.all (t k) = true → r.all (t k) = true →
    (q m₂.current m₂.next (.binary o a.operand b.operand) ↔ t k (.logical op l r line) = true)
  store : ∀ {k m x v o}, Fits f k m → m.vars.lookup? x = some (some v) → Changed m f →
    (q m.current m.next (.store o v.slot.number) ↔ w k x = true)
  fresh : ∀ {k m x ty o}, Fits f k m → m.vars.lookup? x = none → Placed m →
    Changed (m.add (.alloca ty)) f →
    q (m.add (.alloca ty)).current (m.add (.alloca ty)).next (.store o (m.counter + 1)) ∧
      w k x = true
  plain : ∀ {i n x}, plain x = true → q i n x
  silent : ∀ {k e}, silent e = true → t k e = true

namespace Judges

variable {q : Nat → Nat → Instr → Prop} {t : Knowledge → Expr → Bool}
  {w : Knowledge → String → Bool} {i : Instr} {v : Option (Typed Operand)} {o : Operand}

/-- The tests of a place. -/
def passes (t : Knowledge → Expr → Bool) (w : Knowledge → String → Bool) (s : Site) : Bool :=
  s.value.all (t s.knowledge) && s.target?.all (w s.knowledge)

theorem operands_iff {l r : Expr} {a b : Typed Operand} (left : Computes l m (some a) m₁)
    (right : Computes r m₁ (some b) m₂) (fits : Fits f k m) (placed : Placed m)
    (later : Changed m₂ f)
    (ih : Fits f k m → Placed m → Changed m₁ f →
      (AllBetween f q m.counter m₁.counter ↔ l.all (t k) = true))
    (ih' : Fits f k m₁ → Placed m₁ → Changed m₂ f →
      (AllBetween f q m₁.counter m₂.counter ↔ r.all (t k) = true)) :
    AllBetween f q m.counter m₂.counter ↔ l.all (t k) = true ∧ r.all (t k) = true := by
  have later₁ := right.straight.changed.trans later
  rw [allBetween_split left.straight.changed.counter_le right.straight.changed.counter_le,
    ih fits placed later₁,
    ih' (fits.straight left.straight left.vars) (left.straight.placed placed) later]

variable (judges : Judges f q t w)
include judges

/-- What was added up to an instruction, and the instruction. -/
theorem add_iff (changed : Changed m m₁) (placed : Placed m₁) (later : Changed (m₁.add i) f) :
    AllBetween f q m.counter (m₁.add i).counter ↔
      AllBetween f q m.counter m₁.counter ∧ q m₁.current m₁.next i := by
  refine (allBetween_split changed.counter_le (Nat.le_succ _)).trans (and_congr_right fun _ => ?_)
  exact allBetween_add placed later judges.numbered

theorem add_plain_iff (changed : Changed m m₁) (placed : Placed m₁)
    (later : Changed (m₁.add i) f) (isPlain : IR.Builder.plain i = true) :
    AllBetween f q m.counter (m₁.add i).counter ↔ AllBetween f q m.counter m₁.counter := by
  rw [judges.add_iff changed placed later, and_iff_left (judges.plain isPlain)]

/-- An expression passes the test if all its instructions have the property. -/
theorem expr_iff (h : Computes e m v m') (fits : Fits f k m) (placed : Placed m)
    (later : Changed m' f) :
    AllBetween f q m.counter m'.counter ↔ e.all (t k) = true := by
  induction h with
  | integer | real | bool => exact iff_of_true allBetween_self (judges.silent rfl)
  | group _ ih => rw [ih fits placed later, Expr.all, judges.silent rfl, Bool.true_and]
  | name found =>
    rw [judges.add_iff .refl placed later, and_iff_right allBetween_self,
      judges.name fits found ((Changed.refl.add _).trans later), Expr.all]
    all_goals simp
  | arithmetic left right found _ ih ih' =>
    have both := left.straight.trans right.straight
    rw [judges.add_plain_iff both.changed (both.placed placed) later
        (plain_of_arithmetic found _ _),
      operands_iff left right fits placed ((Changed.refl.add _).trans later) ih ih', Expr.all,
      judges.silent rfl, Bool.true_and, Bool.and_eq_true]
  | comparison left right _ _ ih ih' =>
    have both := left.straight.trans right.straight
    rw [judges.add_plain_iff both.changed (both.placed placed) later rfl,
      operands_iff left right fits placed ((Changed.refl.add _).trans later) ih ih', Expr.all,
      judges.silent rfl, Bool.true_and, Bool.and_eq_true]
  | noBinary left right ih ih' =>
    rw [operands_iff left right fits placed later ih ih', Expr.all, judges.silent rfl,
      Bool.true_and, Bool.and_eq_true]
  | plus _ _ _ ih | noUnary _ ih =>
    rw [ih fits placed later, Expr.all, judges.silent rfl, Bool.true_and]
  | minus operand _ _ ih | tilde operand _ _ ih =>
    rw [judges.add_plain_iff operand.straight.changed (operand.straight.placed placed) later rfl,
      ih fits placed ((Changed.refl.add _).trans later), Expr.all, judges.silent rfl,
      Bool.true_and]
  | logical left right found ih ih' =>
    have both := left.straight.trans right.straight
    rw [judges.add_iff both.changed (both.placed placed) later,
      operands_iff left right fits placed ((Changed.refl.add _).trans later) ih ih', Expr.all,
      Bool.and_assoc, Bool.and_eq_true, Bool.and_eq_true, and_comm]
    refine and_congr_left fun passed => ?_
    exact judges.connective fits left right found passed.1 passed.2
  | noLogical left right none ih ih' =>
    rw [operands_iff left right fits placed later ih ih', Expr.all,
      judges.silent (by simp [IR.Builder.silent, none]), Bool.true_and, Bool.and_eq_true]

/-! ### Statements -/

/-- A statement without blocks: the places pass if all instructions have the property. -/
theorem line_iff {s : Stmt} (h : Line s m m') (fits : Fits f k m) (placed : Placed m)
    (later : Changed m' f) :
    (AllBetween f q m.counter m'.counter ↔ ((k.sites s).all (passes t w)) = true) ∧
      Fits f (k.after s) m' := by
  cases h with
  | passed passed =>
    obtain ⟨same, none⟩ := k.after_of_isPassedOver passed
    rw [same, none]
    exact ⟨iff_of_true allBetween_self rfl, fits⟩
  | print computed =>
    have later₁ := (Changed.refl.add _).trans later
    refine ⟨?_, fits.straight (computed.straight.add rfl) computed.vars⟩
    have straight := computed.straight
    rw [judges.add_plain_iff straight.changed (straight.placed placed) later rfl,
      judges.expr_iff computed fits placed later₁]
    simp [Knowledge.sites, passes]
  | @old _ x e _ v m₁ var setting computed found =>
    have later₁ := (Changed.refl.add _).trans later
    obtain ⟨same, sites⟩ := k.after_of_setting setting
    have fits₁ := fits.straight computed.straight computed.vars
    have made := (fits₁.made_of_vars found).1
    have assigned : k.assign x e = k := by simp [Knowledge.assign, made]
    rw [same, sites, assigned]
    refine ⟨?_, fits.straight (computed.straight.add rfl) computed.vars⟩
    rw [judges.add_iff computed.straight.changed (computed.straight.placed placed) later,
      judges.expr_iff computed fits placed later₁, judges.store fits₁ found later₁]
    simp [passes]
  | @new _ x e _ v m₁ setting computed fresh =>
    have stored := Changed.refl.declare.trans later
    have reserved := (Changed.refl.add _).trans stored
    have later₁ := (Changed.refl.add _).trans reserved
    obtain ⟨same, sites⟩ := k.after_of_setting setting
    have fits₁ := fits.straight computed.straight computed.vars
    have placed₁ := computed.straight.placed placed
    rw [same, sites]
    refine ⟨?_, fits₁.declare placed₁ (computed.declared fits rfl) fresh⟩
    obtain ⟨addressed, writes⟩ := judges.fresh (o := v.operand) fits₁ fresh placed₁ reserved
    have changed := computed.straight.changed
    have both := judges.add_iff (changed.add _) ((Straight.refl.add rfl).placed placed₁) stored
    refine both.trans ?_
    rw [judges.add_plain_iff changed placed₁ reserved rfl,
      judges.expr_iff computed fits placed later₁]
    simp [passes, writes, addressed]

/-! ### Statements with blocks -/

theorem withBlocks_iff (changed : Changed m m₁) (later : Changed m₁.withBlocks f) :
    AllBetween f q m.counter m₁.withBlocks.counter ↔ AllBetween f q m.counter m₁.counter := by
  have new {m₁ : Builder} (changed : Changed m m₁) (later : Changed m₁.withBlock f) :
      AllBetween f q m.counter m₁.withBlock.counter ↔ AllBetween f q m.counter m₁.counter :=
    (allBetween_split changed.counter_le (Nat.le_succ _)).trans
      (and_iff_left (allBetween_withBlock later judges.numbered))
  have later₂ := (Changed.refl.withBlock).trans later
  have later₁ := (Changed.refl.withBlock).trans later₂
  exact (new changed.withBlock.withBlock later).trans
    ((new changed.withBlock later₂).trans (new changed later₁))

theorem turned_iff {c p : Nat} (changed : Changed m m₁) (isOpen : Open m₁)
    (later : Changed (m₁.turned c p) f) :
    AllBetween f q m.counter (m₁.turned c p).counter ↔ AllBetween f q m.counter m₁.counter :=
  judges.add_plain_iff changed isOpen.lt ((Changed.moved p .refl).trans later) rfl

theorem parted_iff {b c p : Nat} (changed : Changed m m₁) (isOpen : Open m₁)
    (later : Changed (m₁.parted o b c p) f) :
    AllBetween f q m.counter (m₁.parted o b c p).counter ↔ AllBetween f q m.counter m₁.counter :=
  judges.add_plain_iff changed isOpen.lt ((Changed.moved p .refl).trans later) rfl

/-- The instructions of a branch are those of its test and of its blocks. -/
theorem branch_iff (tested : Straight m m₁) (arms : Arms f m₁ m₂ m₃ o)
    (later : Changed (m₁.exitStart m₃) f) :
    AllBetween f q m.counter (m₁.exitStart m₃).counter ↔
      AllBetween f q m.counter m₁.counter ∧ AllBetween f q (m₁.thenStart o).counter m₂.counter ∧
        AllBetween f q (m₁.elseStart m₂).counter m₃.counter := by
  have made : Changed m m₁.withBlocks := tested.changed.withBlocks
  have first := arms.first.touches.changed
  have second := arms.second.touches.changed
  have atThen := made.parted o (m₁.counter + 1) (m₁.counter + 2) m₁.blocks.size
  have atElse := (atThen.trans first).turned (m₁.counter + 3) (m₁.blocks.size + 1)
  have fromElse := second.trans arms.later₃.changed
  have fromThen := first.trans arms.later₂.changed
  have fromMade := (Changed.refl.parted _ _ _ _).trans fromThen
  rw [judges.turned_iff (atElse.trans second) arms.second.isOpen later,
    allBetween_split atElse.counter_le second.counter_le,
    judges.turned_iff (atThen.trans first) arms.first.isOpen fromElse,
    allBetween_split atThen.counter_le first.counter_le,
    judges.parted_iff made (open_withBlocks arms.isOpen) fromThen,
    judges.withBlocks_iff tested.changed fromMade, and_assoc]

/-- The instructions of a loop are those of its test and of its body. -/
theorem loop_iff (round : Round f m m₁ m₂ o) (later : Changed (m.loopExit m₂) f) :
    AllBetween f q m.counter (m.loopExit m₂).counter ↔
      AllBetween f q m.testStart.counter m₁.counter ∧
        AllBetween f q (m.bodyStart m₁ o).counter m₂.counter := by
  have made : Changed m m.withBlocks := Changed.refl.withBlocks
  have tested := round.tested.changed
  have body := round.body.touches.changed
  have atTest := made.turned (m.counter + 1) m.blocks.size
  have atBody := (atTest.trans tested).parted o (m.counter + 2) (m.counter + 3) (m.blocks.size + 1)
  have fromBody := body.trans round.later₂.changed
  have fromTest := tested.trans round.later₁.changed
  have fromMade := (Changed.refl.turned _ _).trans fromTest
  rw [judges.turned_iff (atBody.trans body) round.body.isOpen later,
    allBetween_split atBody.counter_le body.counter_le,
    judges.parted_iff (atTest.trans tested) (open_tested round.isOpen round.tested) fromBody,
    allBetween_split atTest.counter_le tested.counter_le,
    judges.turned_iff made (open_withBlocks round.isOpen) fromTest,
    judges.withBlocks_iff .refl fromMade, and_iff_right allBetween_self]

/-- Statements with all their blocks: the places pass if all instructions have the property. -/
theorem builds_iff {ss : List Stmt} (h : Builds ss m m') (isOpen : Open m) (fits : Fits f k m)
    (later : Precedes m' f)
    (entered : Entered f m.current m'.current m.blocks.size m'.blocks.size) :
    (AllBetween f q m.counter m'.counter ↔ (k.sitesAll ss).all (passes t w) = true) ∧
      Fits f (k.afterAll ss) m' := by
  have numbered := judges.numbered
  induction h generalizing k with
  | nil => exact ⟨iff_of_true allBetween_self rfl, fits⟩
  | line one rest ih =>
    have straight := one.straight
    have isOpen₁ := (straight.framed isOpen).isOpen
    have later₁ := (rest.framed isOpen₁).touches.precedes.trans later
    obtain ⟨passed, fits₁⟩ := judges.line_iff one fits isOpen.lt later₁.changed
    rw [← straight.current, ← straight.size] at entered
    obtain ⟨passed', fits'⟩ := ih isOpen₁ fits₁ later entered
    refine ⟨?_, fits'⟩
    rw [allBetween_split straight.changed.counter_le rest.changed.counter_le, passed, passed',
      Knowledge.sitesAll, List.all_append, Bool.and_eq_true]
  | @branch test a o line ss m v m₁ m₂ m₃ m' tested b₁ b₂ b₃ ih₁ ih₂ ih₃ =>
    have straight := tested.straight
    have isOpen₁ := (straight.framed isOpen).isOpen
    rw [← straight.current, ← straight.size] at entered
    obtain ⟨arms, entered₃⟩ := arms_of_builds isOpen₁ b₁ b₂ b₃ numbered later entered
    have exits := open_exitStart isOpen₁ arms.first arms.second
    have later₃ := (b₃.framed exits).touches.precedes.trans later
    -- What is known at the start of each block.
    have fits₁ := fits.straight straight tested.vars
    obtain ⟨passed₁, last₁⟩ := ih₁ (open_thenStart isOpen₁ _) (arms.fitsThen fits₁) arms.later₂
      (arms.enteredThen numbered)
    obtain ⟨passed₂, last₂⟩ := ih₂ (open_elseStart isOpen₁ arms.first)
      (arms.fitsElse fits₁ b₁.declares last₁) arms.later₃ (arms.enteredElse numbered)
    obtain ⟨passed₃, last₃⟩ := ih₃ exits
      (arms.fitsExit fits₁ b₁.declares last₁ b₂.declares last₂) later entered₃
    have whole := (framed_branch isOpen₁ arms.first arms.second).touches.changed
    have before := straight.changed.trans whole
    rw [Knowledge.afterAll, Knowledge.after, Knowledge.afterBlock_eq, Knowledge.afterElse_eq]
    refine ⟨?_, last₃⟩
    rw [allBetween_split before.counter_le b₃.changed.counter_le,
      judges.branch_iff straight arms later₃.changed,
      judges.expr_iff tested fits isOpen.lt (whole.trans later₃.changed), passed₁, passed₂,
      passed₃]
    simp [Knowledge.sitesAll, Knowledge.sites, Knowledge.after, Knowledge.afterBlock_eq,
      Knowledge.afterElse_eq, Knowledge.sitesBlock_eq, Knowledge.sitesElse_eq, passes, and_assoc]
  | @loop test b line ss m v m₁ m₂ m' tested b₁ b₂ ih₁ ih₂ =>
    have straight := tested.straight
    obtain ⟨round, entered₂⟩ := round_of_builds isOpen straight b₁ b₂ numbered later entered
    have exits := open_loopExit isOpen straight round.body
    have later₂ := (b₂.framed exits).touches.precedes.trans later
    -- What is known at the test, in the body and after it.
    have fitsTest := round.fitsTest fits
    obtain ⟨passed₁, last₁⟩ := ih₁ (open_bodyStart isOpen straight)
      (round.fitsBody fits tested.vars) round.later₂ (round.enteredBody numbered)
    obtain ⟨passed₂, last₂⟩ := ih₂ exits
      (round.fitsExit fits tested.vars b₁.declares last₁) later entered₂
    have before := (framed_loop isOpen straight round.body).touches.changed
    rw [Knowledge.afterAll, Knowledge.after, Knowledge.afterBlock_eq]
    refine ⟨?_, last₂⟩
    rw [allBetween_split before.counter_le b₂.changed.counter_le,
      judges.loop_iff round later₂.changed,
      judges.expr_iff tested fitsTest (open_testStart isOpen).lt round.later₁.changed, passed₁,
      passed₂]
    simp [Knowledge.sitesAll, Knowledge.sites, Knowledge.after, Knowledge.afterBlock_eq,
      Knowledge.sitesBlock_eq, passes, and_assoc]

end Judges

/-! ### Pointers -/

/-- A pointer comes from the place where its variable was made, earlier in the block or in a block
that dominates it. -/
def Addressed (f : Builder) (i l : Nat) (x : Instr) : Prop :=
  ∀ slot, x.pointer? = some slot → ∃ j n ty, f.Holds j n slot (.alloca ty) ∧
    (j = i ∧ n < l ∨ j ≠ i ∧ Dominates f j i)

/-- A variable can be used through its address if it was made in a block around. -/
theorem Fits.addressed_iff (fits : Fits f k m) {v : Variable Pointer} {i : Instr}
    (found : m.vars.lookup? x = some (some v)) (later : Changed m f) (numbered : Numbered f)
    (pointer : i.pointer? = some v.slot.number) :
    Addressed f m.current m.next i ↔ x ∈ k.around := by
  obtain ⟨-, -, j, n, stands, dominates⟩ := fits.made_of_vars found
  rw [dominates]
  constructor
  · intro addressed
    obtain ⟨j', n', ty, stands', reached⟩ := addressed v.slot.number pointer
    obtain ⟨rfl, rfl⟩ := numbered.holds_inj (later.holds stands) stands'
    rcases reached with ⟨rfl, -⟩ | ⟨-, reached⟩
    · exact dominates_self f _
    · exact reached
  · intro reached slot given
    obtain rfl := Option.some.inj (pointer.symm.trans given)
    refine ⟨j, n, _, later.holds stands, ?_⟩
    by_cases here : j = m.current
    · subst here
      exact .inl ⟨rfl, stands.lt_next⟩
    · exact .inr ⟨here, reached⟩

theorem addressed_of_plain {i l : Nat} {y : Instr} (isPlain : y.pointer? = none) :
    Addressed f i l y := by
  intro slot pointer
  cases isPlain.symm.trans pointer

theorem pointers_judged (numbered : Numbered f) :
    Judges f (Addressed f) Knowledge.reads Knowledge.writes where
  numbered := numbered
  name fits found later := by
    rw [fits.addressed_iff found later numbered rfl]
    simp [Knowledge.reads]
  connective _ _ _ _ _ _ := iff_of_true (addressed_of_plain rfl) rfl
  store fits found later := by
    have made := (fits.made_of_vars found).1
    rw [fits.addressed_iff found later numbered rfl]
    simp [Knowledge.writes, Table.has, made]
  fresh := by
    intro k m x ty o fits unmade placed later
    have stands : (m.add (.alloca ty)).Holds m.current m.next (m.counter + 1) (.alloca ty) :=
      holds_add.mpr (.inr ⟨placed, rfl, rfl, rfl, rfl⟩)
    constructor
    · intro slot pointer
      obtain rfl : m.counter + 1 = slot := Option.some.inj pointer
      exact ⟨m.current, m.next, ty, later.holds stands, .inl ⟨rfl, stands.lt_next⟩⟩
    · cases known : k.made.lookup? x with
      | none => simp [Knowledge.writes, Table.has, known]
      | some d =>
        obtain ⟨_, _, _, found, -⟩ := fits.made x d known
        cases unmade.symm.trans found
  plain {_ _ y} isPlain := by
    refine addressed_of_plain ?_
    cases y with
    | load | store => cases isPlain
    | _ => rfl
  silent {_ e} isSilent := by
    cases e with
    | name => cases isSilent
    | _ => rfl

/-! ### Connectives -/

end Builder

/-- A connective has two bits as operands. -/
def Instr.connectsBits : Instr → Prop
  | .binary .and left right | .binary .or left right => left.ty = .bit ∧ right.ty = .bit
  | _ => True

namespace Builder

/-- If all connectives have operands that are declared to be truth values, the operand of a value is
of the type that the value is declared to have. -/
theorem Computes.ty_eq {v : Option (Typed Operand)} {a : Typed Operand}
    (h : Computes e m v m') (fits : Fits f k m) (connects : e.all k.connects = true)
    (given : v = some a) : a.operand.ty = a.declared.ty := by
  induction h generalizing a with
  | integer | real | bool | comparison =>
    cases given
    rfl
  | name found =>
    cases given
    exact (fits.made_of_vars found).2.1
  | arithmetic _ _ _ number ih =>
    cases given
    rw [Expr.all, Bool.and_eq_true, Bool.and_eq_true] at connects
    have same := ih fits connects.1.2 rfl
    rw [number] at same
    exact same
  | group _ ih | plus _ _ _ ih =>
    exact ih fits (by simpa [Expr.all, Knowledge.connects] using connects) given
  | minus _ _ declared ih | tilde _ _ declared ih =>
    cases given
    have same := ih fits (by simpa [Expr.all, Knowledge.connects] using connects) rfl
    rw [declared] at same
    exact same
  | @logical _ _ r _ _ _ a _ _ _ left right found ih ih' =>
    cases given
    rw [Expr.all, Bool.and_eq_true, Bool.and_eq_true] at connects
    have truth : a.declared = .truth ∧ k.declared? r = some .truth := by
      simpa [Knowledge.connects, found, left.declared fits rfl] using connects.1.1
    have same := ih fits connects.1.2 rfl
    rw [truth.1] at same
    exact same
  | noBinary | noUnary | noLogical => cases given

theorem connectives_judged (numbered : Numbered f) :
    Judges f (fun _ _ x => x.connectsBits) Knowledge.connects (fun _ _ => true) where
  numbered := numbered
  name _ _ _ := iff_of_true trivial rfl
  connective := by
    intro k m l r m₁ m₂ op o line a b fits left right found passed passed'
    have fits₁ := fits.straight left.straight left.vars
    have leftTy := left.ty_eq fits passed rfl
    have rightTy := right.ty_eq fits₁ passed' rfl
    have bits : Instr.connectsBits (.binary o a.operand b.operand) ↔
        a.operand.ty = .bit ∧ b.operand.ty = .bit := by
      unfold connective? at found
      split at found <;> cases found <;> rfl
    have truth : Knowledge.connects k (.logical op l r line) = true ↔
        a.declared = .truth ∧ b.declared = .truth := by
      simp [Knowledge.connects, found, left.declared fits rfl, right.declared fits₁ rfl]
    rw [bits, leftTy, rightTy, truth]
    cases a.declared <;> cases b.declared <;> simp [Declared.ty]
  store _ _ _ := iff_of_true trivial rfl
  fresh _ _ _ _ := ⟨trivial, rfl⟩
  plain {_ _ y} isPlain := by
    cases y with
    | binary op =>
      cases op with
      | and | or => cases isPlain
      | _ => trivial
    | _ => trivial
  silent {k e} isSilent := by
    cases e with
    | logical op =>
      have none : connective? op.kind = .none := by simpa [silent] using isSilent
      simp [Knowledge.connects, none]
    | _ => rfl

/-! ### Whole programs -/

theorem entered_whole (isOpen : Open m) : Entered (m.add .ret) 0 m.current 1 m.blocks.size := by
  intro i j edge le lt
  obtain ⟨b, x, c, found, ends, mem, -⟩ := edge
  have bound := (Array.getElem?_eq_some_iff.mp found).1
  rw [size_add] at bound
  refine ⟨by rw [Inside]; omega, ?_⟩
  rintro rfl
  obtain ⟨b', found', returns⟩ := ends_of_precedes isOpen rfl (.refl (m.add .ret))
  cases found.symm.trans found'
  cases ends.unique returns
  cases mem

/-- The places of a program pass if all instructions of its module have the property. -/
theorem Built.judged_iff {p : Program} {q : Nat → Nat → Instr → Prop}
    {t : Knowledge → Expr → Bool} {w : Knowledge → String → Bool} (built : Built p empty m)
    (judges : Judges (m.add .ret) q t w) :
    (∀ i l n x, (m.add .ret).Holds i l n x → q i l x) ↔
      (sitesOf p).all (Judges.passes t w) = true := by
  have framed := built.framed open_empty
  have changed := framed.touches.changed
  have later : Precedes m (m.add .ret) := (touches_add framed.isOpen .ret).precedes
  have all : (∀ i l n x, (m.add .ret).Holds i l n x → q i l x) ↔
      AllBetween (m.add .ret) q empty.counter m.counter := by
    rw [← judges.add_plain_iff changed framed.isOpen.lt .refl rfl]
    constructor
    · intro all i l n x stands _ _
      exact all i l n x stands
    · intro all i l n x stands
      rcases (changed.trans later.changed).holds_old stands with old | new
      · exact absurd old not_holds_empty
      · exact all i l n x stands new (judges.numbered.holds_le stands)
  have fits := fits_empty (m.add .ret)
  have entered := entered_whole framed.isOpen
  rw [all]
  cases built with
  | expr computed =>
    rw [judges.expr_iff computed fits Nat.one_pos later.changed]
    simp [sitesOf, Judges.passes]
  | stmt built =>
    rw [(judges.builds_iff built open_empty fits later entered).1]
    simp [sitesOf, Knowledge.sitesAll]
  | block built =>
    rw [(judges.builds_iff built open_empty fits later entered).1, sitesOf,
      Knowledge.sitesBlock_eq]
  | inert => exact iff_of_true allBetween_self rfl

theorem passes_truthful :
    Judges.passes Knowledge.connects (fun _ _ => true) = Site.truthful := by
  funext s
  cases found : s.target? <;> simp [Judges.passes, Site.truthful, found]

/-- A variable that is made before a loop is tested by the loop and assigned to in its body. -/
def switchedOff : Program :=
  .block (.mk
    [.assign (.name "x" 1) (.bool true 1) 1,
      .loop (.name "x" 2)
        (.mk [.assign (.name "x" 3)
          (.logical ⟨.kwAnd, "and", 3⟩ (.name "x" 3) (.bool false 3) 3) 3] 3) 2] 1)

/-- A variable that is made in one block of a branch is printed after the branch. -/
def madeInside : Program :=
  .block (.mk
    [.branch (.bool true 1) (.mk [.assign (.name "x" 1) (.bool true 1) 1] 1) none 1,
      .print (.name "x" 1) .none 1] 1)

/-- Two numbers are connected. -/
def numbersConnected (a b : Float) : Program :=
  .block (.mk
    [.branch (.logical ⟨.kwAnd, "and", 1⟩ (.real a 1) (.real b 1) 1)
      (.mk [.print (.bool true 1) .none 1] 1) none 1] 1)

end Builder

end ScriptLang.IR
