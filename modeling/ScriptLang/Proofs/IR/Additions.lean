import ScriptLang.Parse.Stmt
import ScriptLang.Proofs.Code.Additions
import ScriptLang.Proofs.IR.Regions

/-!
Which statements have instructions.

Building takes nothing away from a module (`Extends`). Counted loops, calls and returns are passed
over without a word; every other statement that is built adds an instruction or a block (`Adds`),
since the builder always stands at a block of the module (`Placed`), and then the values it computes
are made of what has instructions. `Visits` goes to all statements that are built on the way, at any
depth, and to the states they are built in.
-/

namespace ScriptLang

/-- The expressions whose values a statement itself computes. -/
def Stmt.computed : Stmt → List Expr
  | .print value _ _ | .assign _ value _ | .assignLocal _ value _ => [value]
  | .branch test _ _ _ | .loop test _ _ => [test]
  | _ => []

namespace IR.Builder

variable {m m₁ m₂ m' : Builder}

/-! ### Modules that grow -/

/-- Nothing is taken away: every block stays, with its number, and begins as it was. -/
def Extends (m m' : Builder) : Prop :=
  ∀ (i : Nat) (block : Block), m.blocks[i]? = some block →
    ∃ block' : Block, m'.blocks[i]? = some block' ∧ block'.number = block.number ∧
      block.code.toList <+: block'.code.toList

/-- There is a block more, or an instruction more in one of the blocks. -/
def Adds (m m' : Builder) : Prop :=
  m.blocks.size < m'.blocks.size ∨
    ∃ (i : Nat) (block block' : Block), m.blocks[i]? = some block ∧ m'.blocks[i]? = some block' ∧
      block.code.size < block'.code.size

theorem Extends.trans (h : Extends m m₁) (h' : Extends m₁ m₂) : Extends m m₂ := by
  intro i block found
  obtain ⟨block₁, found₁, number₁, code₁⟩ := h i block found
  obtain ⟨block₂, found₂, number₂, code₂⟩ := h' i block₁ found₁
  exact ⟨block₂, found₂, number₂.trans number₁, code₁.trans code₂⟩

theorem extends_of_blocks (h : m'.blocks = m.blocks) : Extends m m' :=
  fun _ block found => ⟨block, h ▸ found, rfl, List.prefix_refl _⟩

theorem extends_add (m : Builder) (x : Instr) : Extends m (m.add x) := by
  intro i block found
  rw [getElem?_add, found]
  split
  · exact ⟨_, rfl, rfl, by simp [Block.grown]⟩
  · exact ⟨block, rfl, rfl, List.prefix_refl _⟩

theorem extends_withBlock (m : Builder) : Extends m m.withBlock := by
  intro i block found
  have old : i < m.blocks.size := (Array.getElem?_eq_some_iff.mp found).1
  rw [getElem?_withBlock, if_neg (Nat.ne_of_lt old)]
  exact ⟨block, found, rfl, List.prefix_refl _⟩

theorem Changed.extends (h : Changed m m') : Extends m m' := by
  induction h with
  | refl => exact extends_of_blocks rfl
  | add x _ ih => exact ih.trans (extends_add _ x)
  | withBlock _ ih => exact ih.trans (extends_withBlock _)
  | moved _ _ ih | declare _ ih => exact ih.trans (extends_of_blocks rfl)

/-- An instruction that is added to code that stays in its block is one more there. -/
theorem Straight.adds (h : Straight m m₁) (placed : Placed m) (x : Instr)
    (later : Changed (m₁.add x) m') : Adds m m' := by
  have lt : m.current < m.blocks.size := placed
  obtain ⟨block, found⟩ : ∃ block, m.blocks[m.current]? = some block :=
    ⟨_, Array.getElem?_eq_getElem lt⟩
  obtain ⟨block₁, found₁, -, code₁⟩ := h.changed.extends _ _ found
  have added : (m₁.add x).blocks[m.current]? = some (block₁.grown (m₁.counter + 1) x) := by
    rw [getElem?_add, if_pos h.current, found₁]
    rfl
  obtain ⟨block', found', -, code'⟩ := later.extends _ _ added
  refine .inr ⟨m.current, block, block', found, found', ?_⟩
  have size := code₁.length_le
  have more := code'.length_le
  simp only [Block.grown, Array.length_toList, Array.size_push] at size more
  omega

/-- A statement adds to the module, unless it is passed over. -/
theorem Builds.adds {s : Stmt} (h : Builds [s] m m') (placed : Placed m)
    (kept : s.isPassedOver = false) : Adds m m' := by
  cases h with
  | line one rest =>
    cases rest
    cases one with
    | passed passed => exact Bool.noConfusion (kept.symm.trans passed)
    | print computed | old _ computed _ => exact computed.straight.adds placed _ .refl
    | new _ computed _ => exact computed.straight.adds placed _ (Changed.add _ .refl).declare
  | branch tested first second rest =>
    cases rest
    have more := first.changed.size_le
    have more' := second.changed.size_le
    have size := tested.straight.size
    simp only [size_turned, size_parted, size_withBlocks] at more more'
    exact .inl (by rw [size_turned]; omega)
  | loop tested first rest =>
    cases rest
    have more := first.changed.size_le
    have size := tested.straight.size
    simp only [size_turned, size_parted, size_withBlocks] at more size
    exact .inl (by rw [size_turned]; omega)

/-- The builder comes from a block of the module to another. -/
theorem Builds.placed {ss : List Stmt} (h : Builds ss m m') (placed : Placed m) : Placed m' := by
  induction h with
  | nil => exact placed
  | line one _ ih => exact ih (one.straight.placed placed)
  | branch _ first second _ _ _ ih =>
    have more := first.changed.size_le
    have more' := second.changed.size_le
    simp only [size_turned, size_parted, size_withBlocks] at more more'
    exact ih (by rw [Placed, size_turned, current_turned]; omega)
  | loop tested first _ _ ih =>
    have more := first.changed.size_le
    have size := tested.straight.size
    simp only [size_turned, size_parted, size_withBlocks] at more size
    exact ih (by rw [Placed, size_turned, current_turned]; omega)

/-! ### What has no instructions -/

/-- There are instructions for an expression, its operands apart. -/
def hasInstr : Expr → Bool
  | .text _ _ | .call _ _ _ => false
  | .unary op _ _ => op.kind == .minus || op.kind == .plus || op.kind == .tilde
  | .binary op _ _ _ => (arithmetic? op.kind).isSome || (comparison? op.kind).isSome
  | .logical op _ _ _ => (connective? op.kind).isSome
  | _ => true

/-- An expression with a value is made of what has instructions. -/
theorem Computes.hasInstr {e : Expr} {v : Option (Typed Operand)} {a : Typed Operand}
    (h : Computes e m v m') (given : v = some a) : e.all hasInstr = true := by
  induction h generalizing a with
  | integer | real | bool | name => rfl
  | group _ ih => simp [Expr.all, Builder.hasInstr, ih given]
  | arithmetic _ _ found _ ih ih' => simp [Expr.all, Builder.hasInstr, found, ih rfl, ih' rfl]
  | comparison _ _ _ found ih ih' => simp [Expr.all, Builder.hasInstr, found, ih rfl, ih' rfl]
  | minus _ kind _ ih | plus _ kind _ ih | tilde _ kind _ ih =>
    simp [Expr.all, Builder.hasInstr, kind, ih rfl]
  | logical _ _ found ih ih' => simp [Expr.all, Builder.hasInstr, found, ih rfl, ih' rfl]
  | noBinary | noUnary | noLogical => cases given

/-- A statement that is built declares no function and computes only what has instructions. -/
theorem Builds.hasInstr {s : Stmt} (h : Builds [s] m m') (kept : s.isPassedOver = false) :
    s.isFunc = false ∧ s.computed.all (Expr.all hasInstr) = true := by
  have made {e : Expr} {a : Typed Operand} {m m' : Builder} (computed : Computes e m (some a) m') :
      [e].all (Expr.all Builder.hasInstr) = true := by
    simp [computed.hasInstr rfl]
  cases h with
  | line one =>
    cases one with
    | passed passed => exact Bool.noConfusion (kept.symm.trans passed)
    | print computed => exact ⟨rfl, made computed⟩
    | old setting computed _ | new setting computed _ =>
      cases s with
      | assign | assignLocal =>
        obtain ⟨_, -, same⟩ := Option.map_eq_some_iff.mp setting
        cases same
        exact ⟨rfl, made computed⟩
      | _ => cases setting
  | branch tested | loop tested => exact ⟨rfl, made tested⟩

section Buildings

variable {L : Library} {g g₁ g₂ g' : Building L}

/-- A power has no value, though its operands have: this stops the building without a report. -/
theorem value_of_caret {op : Token} {l r : Expr} {line : ScriptLang.Line} {a b : Typed L.Value}
    (kind : op.kind = .caret) (left : Building.value l g = .ok a g₁)
    (right : Building.value r g₁ = .ok b g₂) :
    Building.value (.binary op l r line) g =
      .error (.fault (.type (.unpacking Datum.none.kind))) g₂ := by
  have unfolded : Building.expr (L := L) (.binary op l r line) =
      (do Building.binary op (← Building.value l) (← Building.value r) line) := by
    simp only [Building.expr, Building.value, bind_assoc]
  have none : Building.binary op a b line = pure none := by
    simp [Building.binary, arithmetic?, comparison?, kind]
  rw [Building.value, unfolded, bind_assoc, bind_of_ok left, bind_assoc, bind_of_ok right, none,
    pure_bind]
  rfl

/-- Counted loops, calls and returns are passed over. -/
theorem stmt_of_isPassedOver {s : Stmt} (h : s.isPassedOver = true) :
    Building.stmt (L := L) s = pure () := by
  cases s with
  | count | call | ret => rfl
  | _ => exact Bool.noConfusion h

mutual
theorem stmt_without (s : Stmt) :
    Building.stmt (L := L) (s.without Stmt.isPassedOver) = Building.stmt s := by
  match s with
  | .branch test thenBlock elseBlock _ =>
    simp only [Stmt.without, Building.stmt, block_without thenBlock,
      optionalBlock_without elseBlock]
  | .loop _ body _ => simp only [Stmt.without, Building.stmt, block_without body]
  | .func .. | .count .. | .print .. | .assign .. | .assignLocal .. | .call .. | .ret .. => rfl

theorem block_without (b : ScriptLang.Block) :
    Building.block (L := L) (b.without Stmt.isPassedOver) = Building.block b := by
  match b with
  | .mk ss _ => exact stmts_without ss

theorem optionalBlock_without (o : Option ScriptLang.Block) :
    Building.optionalBlock (L := L) (ScriptLang.Block.withoutElse Stmt.isPassedOver o) =
      Building.optionalBlock o := by
  match o with
  | none => rfl
  | some b => exact block_without b

/-- Statements have the same instructions without those that are passed over. -/
theorem stmts_without (ss : List Stmt) :
    Building.stmts (L := L) (Stmt.withoutAll Stmt.isPassedOver ss) = Building.stmts ss := by
  match ss with
  | [] => rfl
  | s :: ss =>
    rw [Stmt.withoutAll, Building.stmts]
    split
    · next passed => rw [stmt_of_isPassedOver passed, pure_bind, stmts_without ss]
    · rw [Building.stmts, stmt_without s, stmts_without ss]
end

/-! ### Statements at any depth -/

/-- A statement that is built on the way through some statements, and the state it is built in. -/
inductive Visits : List Stmt → Building L → Stmt → Building L → Prop where
  | here {s ss g} : Visits (s :: ss) g s g
  | later {s ss g g₁ t g'} : Building.stmt s g = .ok () g₁ → Visits ss g₁ t g' →
      Visits (s :: ss) g t g'
  | thenBlock {test a o line ss g p g₁ t g'} : Building.branchHead test line g = .ok p g₁ →
      Visits a.stmts g₁ t g' → Visits (.branch test a o line :: ss) g t g'
  | elseBlock {test a b line ss g p g₁ g₂ g₃ t g'} : Building.branchHead test line g = .ok p g₁ →
      Building.block a g₁ = .ok () g₂ → Building.jumpThenMove p.last p.next g₂ = .ok () g₃ →
      Visits b.stmts g₃ t g' → Visits (.branch test a (some b) line :: ss) g t g'
  | body {test b line ss g p g₁ t g'} : Building.loopHead test line g = .ok p g₁ →
      Visits b.stmts g₁ t g' → Visits (.loop test b line :: ss) g t g'

/-- Every statement is built from a block of the module. -/
theorem Visits.placed {V : L.View} (appends : V.Appends) {ss : List Stmt} {t : Stmt}
    (h : Visits ss g t g') (placed : Placed (V.building g)) : Placed (V.building g') := by
  induction h with
  | here => exact placed
  | later first _ ih => exact ih ((builds_of_stmt appends _ first .nil).placed placed)
  | thenBlock head _ ih =>
    obtain ⟨v, m₁, -, -, -, atThen⟩ := branchHead_eq_ok appends head
    exact ih (by rw [atThen, Placed, size_parted, size_withBlocks, current_parted]; omega)
  | elseBlock head first jumped _ ih =>
    obtain ⟨v, m₁, -, next, last, atThen⟩ := branchHead_eq_ok appends head
    have more := (builds_of_block appends _ first).changed.size_le
    rw [atThen, size_parted, size_withBlocks] at more
    have atElse := jumpThenMove_eq_ok appends jumped
    rw [next, last] at atElse
    exact ih (by rw [atElse, Placed, size_turned, current_turned]; dsimp only; omega)
  | body head _ ih =>
    obtain ⟨v, m₁, tested, -, -, atBody⟩ := loopHead_eq_ok appends head
    have size := tested.straight.size
    rw [size_turned, size_withBlocks] at size
    exact ih (by rw [atBody, Placed, size_parted, current_parted]; omega)

end Buildings

end IR.Builder

end ScriptLang
