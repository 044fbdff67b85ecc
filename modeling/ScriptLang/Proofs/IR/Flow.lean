import Mathlib
import ScriptLang.Proofs.IR.Regions

/-!
Control flow between the blocks of a module.

A branch or a loop adds three blocks, and the builder leaves each block once. So in a finished
module every block ends with the one instruction that leaves it, all blocks can be reached from the
first, and one block returns.
-/

namespace ScriptLang

mutual
/-- The number of branches and loops with a test in a statement, those in the bodies of counted
loops left out. -/
def Stmt.decisions : Stmt → Nat
  | .branch _ thenBlock elseBlock _ => 1 + thenBlock.decisions + Block.decisionsElse elseBlock
  | .loop _ body _ => 1 + body.decisions
  | .func _ _ body _ => body.decisions
  | _ => 0

def Block.decisions : Block → Nat
  | .mk ss _ => Stmt.decisionsBy ss

def Block.decisionsElse : Option Block → Nat
  | none => 0
  | some b => b.decisions

def Stmt.decisionsBy : List Stmt → Nat
  | [] => 0
  | s :: ss => s.decisions + Stmt.decisionsBy ss
end

theorem Block.decisions_eq (b : Block) : b.decisions = Stmt.decisionsBy b.stmts := by
  cases b
  rfl

theorem Block.decisionsElse_eq (o : Option Block) :
    Block.decisionsElse o = Stmt.decisionsBy (Block.stmtsElse o) := by
  cases o with
  | none => rfl
  | some b => exact b.decisions_eq

/-- The number of branches and loops with a test in a program. -/
def Program.decisions : Program → Nat
  | .stmt s => s.decisions
  | .block b => b.decisions
  | .expr _ | .inert => 0

namespace IR.Builder

variable {m m' m₁ m₂ f : Builder} {i j k a z lo mid hi : Nat} {S S' : Nat → Prop}

/-! ### Ways through a module -/

/-- Control can go from one block to another. -/
def Edge (f : Builder) (i j : Nat) : Prop :=
  ∃ b x t, f.blocks[i]? = some b ∧ b.Ends x ∧ t ∈ x.targets ∧ f.Labelled j t

/-- Control can go from one block to another through blocks of a set only. -/
inductive Within (f : Builder) (S : Nat → Prop) (i : Nat) : Nat → Prop where
  | refl : S i → Within f S i i
  | step {j k : Nat} : Within f S i j → Edge f j k → S k → Within f S i k

theorem Within.mono (h : Within f S i j) (sub : ∀ k, S k → S' k) : Within f S' i j := by
  induction h with
  | refl inside => exact .refl (sub _ inside)
  | step _ edge inside ih => exact ih.step edge (sub _ inside)

theorem Within.trans (h : Within f S i j) (h' : Within f S j k) : Within f S i k := by
  induction h' with
  | refl => exact h
  | step _ edge inside ih => exact ih.step edge inside

theorem Within.target (h : Within f S i j) : S j := by
  cases h with
  | refl inside | step _ _ inside => exact inside

theorem Jumps.edge (h : Jumps f i j) : Edge f i j := by
  obtain ⟨b, t, found, ends, label⟩ := h
  exact ⟨b, .jump t, t, found, ends, by simp [Instr.targets], label⟩

theorem Branches.left (h : Branches f i j k) : Edge f i j := by
  obtain ⟨b, v, s, t, found, ends, yes, no⟩ := h
  exact ⟨b, .branch v s t, s, found, ends, by simp [Instr.targets], yes⟩

theorem Branches.right (h : Branches f i j k) : Edge f i k := by
  obtain ⟨b, v, s, t, found, ends, yes, no⟩ := h
  exact ⟨b, .branch v s t, t, found, ends, by simp [Instr.targets], no⟩

/-! ### Ways through a region -/

/-- The block that a region is entered from, or one of its own. -/
def Inside (a lo hi i : Nat) : Prop := i = a ∨ lo ≤ i ∧ i < hi

theorem Region.le (h : Region f a z lo hi) : lo ≤ hi := by
  induction h with
  | line => exact Nat.le_refl _
  | seq _ _ ih ih' => exact Nat.le_trans ih ih'
  | branch | loop => omega

theorem Region.last (h : Region f a z lo hi) : Inside a lo hi z := by
  induction h with
  | line => exact .inl rfl
  | seq first second ih ih' =>
    have le := first.le
    have le' := second.le
    rcases ih' with rfl | inside
    · rcases ih with rfl | inside
      · exact .inl rfl
      · exact .inr (by omega)
    · exact .inr (by omega)
  | branch _ first _ second =>
    have le := first.le
    have le' := second.le
    exact .inr (by omega)
  | loop _ _ body =>
    have le := body.le
    exact .inr (by omega)

/-- A block ends with an instruction that goes to blocks of a range only. -/
def Leads (f : Builder) (lo hi i : Nat) : Prop :=
  ∃ b x, f.blocks[i]? = some b ∧ b.Ends x ∧ x ≠ .ret ∧
    ∀ t ∈ x.targets, ∃ j, lo ≤ j ∧ j < hi ∧ f.Labelled j t

theorem Leads.mono (h : Leads f lo hi i) {lo' hi' : Nat} (le : lo' ≤ lo) (le' : hi ≤ hi') :
    Leads f lo' hi' i := by
  obtain ⟨b, x, found, ends, other, inside⟩ := h
  refine ⟨b, x, found, ends, other, fun t mem => ?_⟩
  obtain ⟨j, above, below, label⟩ := inside t mem
  exact ⟨j, by omega, by omega, label⟩

theorem Jumps.leads (h : Jumps f i j) (le : lo ≤ j) (lt : j < hi) : Leads f lo hi i := by
  obtain ⟨b, t, found, ends, label⟩ := h
  refine ⟨b, .jump t, found, ends, by simp, fun t' mem => ?_⟩
  obtain rfl := List.mem_singleton.mp mem
  exact ⟨j, le, lt, label⟩

theorem Branches.leads (h : Branches f i j k) (le : lo ≤ j) (lt : j < hi) (le' : lo ≤ k)
    (lt' : k < hi) : Leads f lo hi i := by
  obtain ⟨b, v, s, t, found, ends, yes, no⟩ := h
  refine ⟨b, .branch v s t, found, ends, by simp, fun t' mem => ?_⟩
  rcases List.mem_cons.mp mem with rfl | mem
  · exact ⟨j, le, lt, yes⟩
  · obtain rfl := List.mem_singleton.mp mem
    exact ⟨k, le', lt', no⟩

/-- Every block of a region but the last leads to blocks of the region. -/
theorem Region.leads (h : Region f a z lo hi) (inside : Inside a lo hi i) (other : i ≠ z) :
    Leads f lo hi i := by
  induction h with
  | line =>
    rcases inside with rfl | inside
    · exact absurd rfl other
    · omega
  | @seq a b z lo mid hi first second ih ih' =>
    have le := first.le
    have le' := second.le
    by_cases middle : i = b
    · exact (ih' (.inl middle) other).mono le (Nat.le_refl _)
    · by_cases early : Inside a lo mid i
      · exact (ih early middle).mono (Nat.le_refl _) le'
      · have late : Inside b mid hi i := by
          rcases inside with rfl | inside
          · exact absurd (.inl rfl) early
          · exact .inr ⟨Nat.le_of_not_lt fun lt => early (.inr ⟨inside.1, lt⟩), inside.2⟩
        exact (ih' late other).mono le (Nat.le_refl _)
  | @branch a n y mid z hi branches first jumps second jumps' ih ih' =>
    have le := first.le
    have le' := second.le
    have split : i = a ∨ Inside n (n + 3) mid i ∨ Inside (n + 1) mid hi i := by
      simp only [Inside] at inside ⊢
      omega
    rcases split with rfl | here | here
    · exact branches.leads (by omega) (by omega) (by omega) (by omega)
    · by_cases last : i = y
      · exact last ▸ jumps.leads (by omega) (by omega)
      · exact (ih here last).mono (by omega) le'
    · by_cases last : i = z
      · exact last ▸ jumps'.leads (by omega) (by omega)
      · exact (ih' here last).mono (by omega) (Nat.le_refl _)
  | @loop a n z hi jumps branches body jumps' ih =>
    have le := body.le
    have split : i = a ∨ i = n ∨ Inside (n + 1) (n + 3) hi i := by
      simp only [Inside] at inside ⊢
      omega
    rcases split with rfl | rfl | here
    · exact jumps.leads (by omega) (by omega)
    · exact branches.leads (by omega) (by omega) (by omega) (by omega)
    · by_cases last : i = z
      · exact last ▸ jumps'.leads (by omega) (by omega)
      · exact (ih here last).mono (by omega) (Nat.le_refl _)

/-- Every block of a region can be reached without leaving it. -/
theorem Region.within (h : Region f a z lo hi) (inside : Inside a lo hi i) :
    Within f (Inside a lo hi) a i := by
  induction h generalizing i with
  | line =>
    rcases inside with rfl | inside
    · exact .refl (.inl rfl)
    · omega
  | @seq a b z lo mid hi first second ih ih' =>
    have le := first.le
    have le' := second.le
    have sub (k : Nat) (early : Inside a lo mid k) : Inside a lo hi k := by
      simp only [Inside] at early ⊢
      omega
    by_cases early : Inside a lo mid i
    · exact (ih early).mono sub
    · have late : Inside b mid hi i := by
        simp only [Inside] at inside early ⊢
        omega
      have reached := (ih first.last).mono sub
      refine reached.trans ((ih' late).mono fun k here => ?_)
      rcases here with rfl | here
      · exact sub _ first.last
      · exact .inr ⟨by omega, here.2⟩
  | @branch a n y mid z hi branches first jumps second jumps' ih ih' =>
    have le := first.le
    have le' := second.le
    have start : Within f (Inside a n hi) a a := .refl (.inl rfl)
    have thenPart {k : Nat} (here : Inside n (n + 3) mid k) : Within f (Inside a n hi) a k :=
      (start.step branches.left (.inr (by omega))).trans ((ih here).mono fun k here => by
        simp only [Inside] at here ⊢
        omega)
    have elsePart {k : Nat} (here : Inside (n + 1) mid hi k) : Within f (Inside a n hi) a k :=
      (start.step branches.right (.inr (by omega))).trans ((ih' here).mono fun k here => by
        simp only [Inside] at here ⊢
        omega)
    have split : i = a ∨ i = n + 2 ∨ Inside n (n + 3) mid i ∨ Inside (n + 1) mid hi i := by
      simp only [Inside] at inside ⊢
      omega
    rcases split with rfl | rfl | here | here
    · exact start
    · exact (thenPart first.last).step jumps.edge inside
    · exact thenPart here
    · exact elsePart here
  | @loop a n z hi jumps branches body jumps' ih =>
    have le := body.le
    have start : Within f (Inside a n hi) a a := .refl (.inl rfl)
    have test := start.step jumps.edge (.inr (by omega))
    have split : i = a ∨ i = n ∨ i = n + 2 ∨ Inside (n + 1) (n + 3) hi i := by
      simp only [Inside] at inside ⊢
      omega
    rcases split with rfl | rfl | rfl | here
    · exact start
    · exact test
    · exact test.step branches.right inside
    · refine (test.step branches.left (.inr (by omega))).trans ((ih here).mono fun k here => ?_)
      simp only [Inside] at here ⊢
      omega

/-! ### The number of blocks -/

theorem Line.decisions {s : Stmt} (h : Line s m m') : s.decisions = 0 := by
  cases h with
  | print => rfl
  | passed passed =>
    cases s with
    | count | call | ret => rfl
    | _ => exact Bool.noConfusion passed
  | old setting _ _ | new setting _ _ =>
    cases s with
    | assign | assignLocal => rfl
    | _ => cases setting

/-- Every branch and every loop adds three blocks. -/
theorem Builds.size {ss : List Stmt} (h : Builds ss m m') :
    m'.blocks.size = m.blocks.size + 3 * Stmt.decisionsBy ss := by
  induction h with
  | nil => rfl
  | line one _ ih => rw [ih, one.straight.size, Stmt.decisionsBy, one.decisions, Nat.zero_add]
  | branch tested _ _ _ ih₁ ih₂ ih₃ =>
    have size := tested.straight.size
    simp only [size_turned, size_parted, size_withBlocks] at ih₁ ih₂ ih₃
    simp only [Stmt.decisionsBy, Stmt.decisions, ScriptLang.Block.decisions_eq,
      ScriptLang.Block.decisionsElse_eq]
    omega
  | loop tested _ _ ih₁ ih₂ =>
    have size := tested.straight.size
    simp only [size_turned, size_parted, size_withBlocks] at ih₁ ih₂ size
    simp only [Stmt.decisionsBy, Stmt.decisions, ScriptLang.Block.decisions_eq]
    omega

/-! ### Whole programs -/

theorem open_empty : Open empty := ⟨⟨2, #[]⟩, rfl, by simp [Block.Plain]⟩

section Built

variable {p : Program}

theorem Built.framed (h : Built p m m') (isOpen : Open m) : Framed m m' := by
  cases h with
  | expr computed => exact computed.straight.framed isOpen
  | stmt built | block built => exact built.framed isOpen
  | inert => exact Straight.refl.framed isOpen

theorem Built.region (h : Built p m m') (isOpen : Open m) (later : Precedes m' f) :
    Region f m.current m'.current m.blocks.size m'.blocks.size := by
  cases h with
  | expr computed =>
    rw [computed.straight.current, computed.straight.size]
    exact .line
  | stmt built | block built => exact built.region isOpen later
  | inert => exact .line

theorem Built.size (h : Built p m m') : m'.blocks.size = m.blocks.size + 3 * p.decisions := by
  cases h with
  | expr computed => exact computed.straight.size
  | stmt built => exact built.size
  | block built =>
    rw [Program.decisions, ScriptLang.Block.decisions_eq]
    exact built.size
  | inert => rfl

theorem Built.numbered (h : Built p empty m) : Numbered (m.add .ret) :=
  ((h.framed open_empty).touches.changed.add .ret).numbered numbered_empty

end Built

/-- Every block is left by its last instruction and by no other, for blocks of the module; all
blocks can be reached from the first, and one of them returns. -/
structure WellFormed (m : Builder) : Prop where
  numbers : ∀ {i j n}, m.Labelled i n → m.Labelled j n → i = j
  ends : ∀ i < m.blocks.size, ∃ b x, m.blocks[i]? = some b ∧ b.Ends x ∧
    ∀ t ∈ x.targets, ∃ j, m.Labelled j t
  reached : ∀ i < m.blocks.size, Within m (fun _ => True) 0 i
  returns : ∃! i : Nat, ∃ b : Block, m.blocks[i]? = some b ∧ b.Ends .ret

theorem Built.wellFormed {p : Program} (built : Built p empty m) : WellFormed (m.add .ret) := by
  have framed := built.framed open_empty
  have later : Precedes m (m.add .ret) := (touches_add framed.isOpen .ret).precedes
  have region : Region (m.add .ret) 0 m.current 1 (m.add .ret).blocks.size := by
    rw [size_add]
    exact built.region open_empty later
  obtain ⟨last, found, returns⟩ := ends_of_precedes framed.isOpen rfl (.refl (m.add .ret))
  have inside {i : Nat} (lt : i < (m.add .ret).blocks.size) :
      Inside 0 1 (m.add .ret).blocks.size i := by
    rw [Inside]
    omega
  refine ⟨built.numbered.labelled_inj, fun i lt => ?_, fun i lt => ?_,
    m.current, ⟨last, found, returns⟩, ?_⟩
  · by_cases atEnd : i = m.current
    · exact ⟨last, .ret, atEnd ▸ found, returns, by simp [Instr.targets]⟩
    · obtain ⟨b, x, here, ends, -, targets⟩ := region.leads (inside lt) atEnd
      refine ⟨b, x, here, ends, fun t mem => ?_⟩
      obtain ⟨j, -, -, label⟩ := targets t mem
      exact ⟨j, label⟩
  · exact (region.within (inside lt)).mono fun _ _ => trivial
  · rintro i ⟨b, here, returns'⟩
    refine Classical.byContradiction fun other => ?_
    have lt := (Array.getElem?_eq_some_iff.mp here).1
    obtain ⟨b', x, here', ends, notRet, -⟩ := region.leads (inside lt) other
    cases here.symm.trans here'
    exact notRet (ends.unique returns')

/-! ### No block is left twice -/

section Unended

variable {L : Library} {α β : Type} {g g' : Building L} {x : Build L α} {f : α → Build L β}

/-- A step does not stop because a block has been left before. -/
def Unended (g : Building L) (x : Build L α) : Prop := ∀ g', x g ≠ .error .leftTwice g'

theorem Unended.bind (h : Unended g x) (h' : ∀ a g₁, x g = .ok a g₁ → Unended g₁ (f a)) :
    Unended g (x >>= f) := by
  intro g'
  cases first : x g with
  | ok a g₁ =>
    rw [bind_of_ok first]
    exact h' a g₁ first g'
  | error e g₁ =>
    rw [bind_of_error first]
    intro given
    obtain ⟨rfl, rfl⟩ := EStateM.Result.error.inj given
    exact h g₁ first

theorem Unended.ok {a : α} (h : x g = .ok a g') : Unended g x := by
  intro g₁
  rw [h]
  simp

/-- Steps that stay in their block do not leave it. -/
theorem here_unended (x : Ask L α) : Unended g (Building.here x) := by
  intro g'
  rw [Building.here]
  cases x g with
  | ok a g₁ => simp
  | error e g₁ => simp

end Unended

section Unended

variable {L : Library} {V : L.View} {g : Building L}

theorem leave_unended (appends : V.Appends) (isOpen : Open (V.building g))
    (x : Exit L.Value L.Label) : Unended g (Building.leave x) := by
  obtain ⟨b, found, plain⟩ := isOpen
  have notEnded : (V.building g).ended = false := by
    rw [Module.ended, found, Option.any_some, plain.not_ended]
  obtain ⟨g', left⟩ := appends.leave_of_not_ended notEnded
  exact .ok left

theorem jumpThenMove_unended (appends : V.Appends) (isOpen : Open (V.building g))
    (target next : L.Label) : Unended g (Building.jumpThenMove target next) :=
  (leave_unended appends isOpen _).bind fun _ _ _ => .ok rfl

theorem branchHead_unended (appends : V.Appends) (isOpen : Open (V.building g)) (test : Expr)
    (line : ScriptLang.Line) : Unended g (Building.branchHead test line) := by
  refine (here_unended _).bind fun v g₁ tested => ?_
  have computed := computes_of_value appends (here_eq_ok.mp tested)
  have isOpen := (computed.straight.framed isOpen).isOpen
  cases v.declared with
  | number => exact here_unended _
  | truth =>
    refine Unended.bind (.ok rfl) fun p₁ g₂ new₁ => Unended.bind (.ok rfl) fun p₂ g₃ new₂ =>
      Unended.bind (.ok rfl) fun p₃ g₄ new₃ => ?_
    obtain ⟨added, -⟩ := newBlocks_eq_ok appends new₁ new₂ new₃
    refine (leave_unended appends ?_ _).bind fun _ _ _ =>
      Unended.bind (.ok rfl) fun _ _ _ => .ok rfl
    rw [added]
    exact open_withBlocks isOpen

theorem loopHead_unended (appends : V.Appends) (isOpen : Open (V.building g)) (test : Expr)
    (line : ScriptLang.Line) : Unended g (Building.loopHead test line) := by
  refine Unended.bind (.ok rfl) fun p₁ g₂ new₁ => Unended.bind (.ok rfl) fun p₂ g₃ new₂ =>
    Unended.bind (.ok rfl) fun p₃ g₄ new₃ => ?_
  obtain ⟨added, named, -⟩ := newBlocks_eq_ok appends new₁ new₂ new₃
  have before : Open (V.building g₄) := added ▸ open_withBlocks isOpen
  refine (jumpThenMove_unended appends before _ _).bind fun _ g₅ jumped => ?_
  refine (here_unended _).bind fun v g₆ tested => ?_
  have computed := computes_of_value appends (here_eq_ok.mp tested)
  rw [jumpThenMove_eq_ok appends jumped, added, named] at computed
  have isOpen := open_tested isOpen computed.straight
  cases v.declared with
  | number => exact here_unended _
  | truth =>
    exact (leave_unended appends isOpen _).bind fun _ _ _ =>
      Unended.bind (.ok rfl) fun _ _ _ => .ok rfl

mutual
/-- No statement leaves a block that was left before. -/
theorem stmt_unended (appends : V.Appends) (s : Stmt) {g : Building L}
    (isOpen : Open (V.building g)) : Unended g (Building.stmt s) := by
  match s with
  | .print e _ _ | .assign _ e _ | .assignLocal _ e _ => exact here_unended _
  | .branch test thenBlock elseBlock line =>
    rw [Building.stmt]
    refine (branchHead_unended appends isOpen test line).bind fun p g₁ head => ?_
    obtain ⟨v, m₀, tested, next, last, atThen⟩ := branchHead_eq_ok appends head
    have test := tested.straight.framed isOpen
    have inThen : Open (V.building g₁) := by
      rw [atThen]
      exact open_thenStart test.isOpen v.operand
    refine (block_unended appends thenBlock inThen).bind fun _ g₂ given => ?_
    have first := (builds_of_block appends thenBlock given).framed inThen
    refine (jumpThenMove_unended appends first.isOpen _ _).bind fun _ g₃ jumped => ?_
    rw [atThen] at first
    have inElse : Open (V.building g₃) := by
      rw [jumpThenMove_eq_ok appends jumped, next, last]
      exact open_elseStart test.isOpen first
    refine (optionalBlock_unended appends elseBlock inElse).bind fun _ g₄ given => ?_
    have second := (builds_of_optionalBlock appends elseBlock given).framed inElse
    exact jumpThenMove_unended appends second.isOpen _ _
  | .loop test body line =>
    rw [Building.stmt]
    refine (loopHead_unended appends isOpen test line).bind fun p g₁ head => ?_
    obtain ⟨v, m₀, tested, -, -, atBody⟩ := loopHead_eq_ok appends head
    have inBody : Open (V.building g₁) := by
      rw [atBody]
      exact open_bodyStart isOpen tested.straight
    refine (block_unended appends body inBody).bind fun _ g₂ given => ?_
    have inner := (builds_of_block appends body given).framed inBody
    exact jumpThenMove_unended appends inner.isOpen _ _
  | .func _ _ _ _ =>
    rw [Building.stmt]
    exact here_unended _
  | .count .. | .call .. | .ret .. => exact .ok rfl

theorem block_unended (appends : V.Appends) (b : ScriptLang.Block) {g : Building L}
    (isOpen : Open (V.building g)) : Unended g (Building.block b) := by
  match b with
  | .mk ss _ => exact stmts_unended appends ss isOpen

theorem optionalBlock_unended (appends : V.Appends) (o : Option ScriptLang.Block) {g : Building L}
    (isOpen : Open (V.building g)) : Unended g (Building.optionalBlock o) := by
  match o with
  | none => exact .ok rfl
  | some b => exact block_unended appends b isOpen

theorem stmts_unended (appends : V.Appends) (ss : List Stmt) {g : Building L}
    (isOpen : Open (V.building g)) : Unended g (Building.stmts ss) := by
  match ss with
  | [] => exact .ok rfl
  | s :: ss =>
    refine (stmt_unended appends s isOpen).bind fun _ g₁ given => ?_
    have framed := (builds_of_stmt appends s given .nil).framed isOpen
    exact stmts_unended appends ss framed.isOpen
end

theorem wholeProgram_unended (appends : V.Appends) (p : Program)
    (isOpen : Open (V.building g)) : Unended g (Building.wholeProgram p) := by
  have body : Unended g (Building.program p) := by
    cases p with
    | expr e => exact (here_unended _).bind fun _ _ _ => .ok rfl
    | stmt s => exact stmt_unended appends s isOpen
    | block b => exact block_unended appends b isOpen
    | inert => exact .ok rfl
  refine body.bind fun _ g₁ given => ?_
  exact leave_unended appends ((built_of_program appends given).framed isOpen).isOpen _

end Unended

/-- A branch inside a loop, and a branch in a counted loop, which has no blocks. -/
def nested : Program :=
  .block (.mk
    [.loop (.bool true 1) (.mk [.branch (.bool false 1) (.mk [] 1) none 1] 1) 1,
      .count "i" 2 (.bool true 2) (.bool true 2) none
        (.mk [.branch (.bool true 2) (.mk [] 2) none 2] 2) 2] 1)

end IR.Builder

end ScriptLang
