import ScriptLang.Proofs.IR.Views

/-!
What a building does, said once.

A module changes in four ways: an instruction is added where the builder stands, a block is added,
the builder moves, a variable is declared. `Computes`, `Line` and `Builds` say which of these
changes an expression, a statement without blocks, and statements with all their blocks make, and in
which order. They hold of what any library makes that adds what it is asked for; everything else
about modules that were built follows from them by induction.
-/

namespace ScriptLang

/-- A statement that is built without any instruction. -/
def Stmt.isPassedOver : Stmt → Bool
  | .count _ _ _ _ _ _ _ | .call _ _ _ | .ret _ _ => true
  | _ => false

/-- The name that a statement assigns to, and the value. -/
def Stmt.setting? : Stmt → Option (String × Expr)
  | .assign target value _ | .assignLocal target value _ => target.target?.map (·, value)
  | _ => none

/-- The statements of a block that may be missing. -/
def Block.stmtsElse : Option Block → List Stmt
  | none => []
  | some b => b.stmts

namespace IR.Builder

variable {m m' m₁ m₂ : Builder} {i j : Nat}

/-! ### Expressions -/

/-- The instructions of an expression lead from one module to another and give a value, or none if
there is no instruction for the outermost operator. -/
inductive Computes : Expr → Builder → Option (Typed Operand) → Builder → Prop where
  | integer {value line x m} : Number.ofInt? value = some x →
      Computes (.integer value line) m (some ⟨.number, .real x⟩) m
  | real {value line m} : Computes (.real value line) m (some ⟨.number, .real value⟩) m
  | bool {value line m} : Computes (.bool value line) m (some ⟨.truth, .bit value⟩) m
  | group {inner line m v m'} : Computes inner m v m' → Computes (.group inner line) m v m'
  | name {x line m v} : m.vars.lookup? x = some (some v) →
      Computes (.name x line) m (some ⟨v.declared, .register (m.counter + 1) v.slot.ty⟩)
        (m.add (.load v.slot.ty v.slot.number))
  | arithmetic {op l r line o m a m₁ b m₂} : Computes l m (some a) m₁ →
      Computes r m₁ (some b) m₂ → arithmetic? op.kind = some o → a.declared = .number →
      Computes (.binary op l r line) m (some ⟨.number, .register (m₂.counter + 1) a.operand.ty⟩)
        (m₂.add (.binary o a.operand b.operand))
  | comparison {op l r line c m a m₁ b m₂} : Computes l m (some a) m₁ →
      Computes r m₁ (some b) m₂ → arithmetic? op.kind = none → (comparison? op.kind).isSome →
      Computes (.binary op l r line) m (some ⟨.truth, .register (m₂.counter + 1) .bit⟩)
        (m₂.add (.compare c a.operand b.operand))
  | noBinary {op l r line m a m₁ b m₂} : Computes l m (some a) m₁ → Computes r m₁ (some b) m₂ →
      Computes (.binary op l r line) m none m₂
  | minus {op e line m a m₁} : Computes e m (some a) m₁ → op.kind = .minus →
      a.declared = .number →
      Computes (.unary op e line) m (some ⟨.number, .register (m₁.counter + 1) a.operand.ty⟩)
        (m₁.add (.neg a.operand))
  | plus {op e line m a m₁} : Computes e m (some a) m₁ → op.kind = .plus →
      a.declared = .number → Computes (.unary op e line) m (some a) m₁
  | tilde {op e line m a m₁} : Computes e m (some a) m₁ → op.kind = .tilde →
      a.declared = .truth →
      Computes (.unary op e line) m (some ⟨.truth, .register (m₁.counter + 1) a.operand.ty⟩)
        (m₁.add (.complement a.operand))
  | noUnary {op e line m a m₁} : Computes e m (some a) m₁ → Computes (.unary op e line) m none m₁
  | logical {op l r line o m a m₁ b m₂} : Computes l m (some a) m₁ → Computes r m₁ (some b) m₂ →
      connective? op.kind = some o →
      Computes (.logical op l r line) m (some ⟨.truth, .register (m₂.counter + 1) a.operand.ty⟩)
        (m₂.add (.binary o a.operand b.operand))
  | noLogical {op l r line m a m₁ b m₂} : Computes l m (some a) m₁ → Computes r m₁ (some b) m₂ →
      connective? op.kind = none → Computes (.logical op l r line) m none m₂

section Expressions

variable {L : Library} {V : L.View} {g g' g₁ g₂ : Building L} {op : Token} {l r e : Expr}
  {line : ScriptLang.Line} {a b : Typed L.Value} {v : Option (Typed L.Value)}

theorem demand_eq_ok {o : Option (Typed L.Value)} (given : Building.demand o g = .ok a g') :
    o = some a ∧ g = g' := by
  cases o with
  | none => exact absurd given throw_ne_ok
  | some b =>
    obtain ⟨rfl, rfl⟩ := pure_eq_ok.mp given
    exact ⟨rfl, rfl⟩

theorem demanded_eq_ok {α : Type} {f : Typed L.Value → Ask L α} {y : α}
    (given : (Building.expr e >>= fun o => Building.demand o >>= f) g = .ok y g') :
    ∃ a g₁, Building.expr e g = .ok (some a) g₁ ∧ f a g₁ = .ok y g' := by
  obtain ⟨o, g₁, computed, given⟩ := bind_eq_ok.mp given
  obtain ⟨a, g₂, needed, given⟩ := bind_eq_ok.mp given
  obtain ⟨rfl, rfl⟩ := demand_eq_ok needed
  exact ⟨a, g₁, computed, given⟩

variable (appends : V.Appends)
include appends

theorem computes_name {x : String} (given : Building.load x line g = .ok v g') :
    Computes (.name x line) (V.building g) (v.map V.typed) (V.building g') := by
  rw [Building.load, get_bind] at given
  have known := Library.View.lookup?_vars (V := V) g x
  cases found : g.vars.lookup? x with
  | none =>
    rw [found] at given
    exact absurd given throw_ne_ok
  | some announced =>
    rw [found] at given known
    cases announced with
    | none => exact absurd given throw_ne_ok
    | some var =>
      obtain ⟨w, g₁, loaded, given⟩ := bind_eq_ok.mp given
      obtain ⟨added, named⟩ := appends.compute_eq_ok loaded
      cases none : L.isNone w with
      | true =>
        rw [none] at given
        exact absurd given throw_ne_ok
      | false =>
        rw [none] at given
        obtain ⟨rfl, rfl⟩ := pure_eq_ok.mp given
        rw [added, Option.map_some, Library.View.typed, named]
        exact .name known

theorem computes_binary (left : Computes l m (some (V.typed a)) m₁)
    (right : Computes r m₁ (some (V.typed b)) (V.building g))
    (given : Building.binary op a b line g = .ok v g') :
    Computes (.binary op l r line) m (v.map V.typed) (V.building g') := by
  generalize step : Building.binary op a b line = x at given
  rw [Building.binary] at step
  split at step
  · next found =>
      split at step
      · subst step
        exact absurd given throw_ne_ok
      · split at step
        · next number _ =>
            subst step
            obtain ⟨same, added⟩ := appends.result_eq_ok given
            rw [same, added]
            exact .arithmetic left right found number
        · subst step
          exact absurd given throw_ne_ok
  · next none found =>
      have compares : (comparison? op.kind).isSome := by simp [found]
      split at step
      · subst step
        obtain ⟨same, added⟩ := appends.result_eq_ok given
        rw [same, added]
        exact .comparison left right none compares
      · subst step
        obtain ⟨same, added⟩ := appends.result_eq_ok given
        rw [same, added]
        exact .comparison left right none compares
      · subst step
        exact absurd given throw_ne_ok
  · subst step
    obtain ⟨rfl, rfl⟩ := pure_eq_ok.mp given
    exact .noBinary left right

theorem computes_unary (operand : Computes e m (some (V.typed a)) (V.building g))
    (given : Building.unary op a g = .ok v g') :
    Computes (.unary op e line) m (v.map V.typed) (V.building g') := by
  generalize step : Building.unary op a = x at given
  rw [Building.unary] at step
  split at step
  · next kind =>
      split at step
      · next number =>
          subst step
          obtain ⟨same, added⟩ := appends.result_eq_ok given
          rw [same, added]
          exact .minus operand kind number
      · subst step
        exact absurd given throw_ne_ok
  · next kind =>
      split at step
      · next number =>
          subst step
          obtain ⟨rfl, rfl⟩ := pure_eq_ok.mp given
          exact .plus operand kind number
      · subst step
        exact absurd given throw_ne_ok
  · next kind =>
      split at step
      · next truth =>
          subst step
          obtain ⟨same, added⟩ := appends.result_eq_ok given
          rw [same, added]
          exact .tilde operand kind truth
      · subst step
        exact absurd given throw_ne_ok
  · subst step
    obtain ⟨rfl, rfl⟩ := pure_eq_ok.mp given
    exact .noUnary operand

theorem computes_logical (left : Computes l m (some (V.typed a)) m₁)
    (right : Computes r m₁ (some (V.typed b)) (V.building g))
    (given : Building.logical op a b g = .ok v g') :
    Computes (.logical op l r line) m (v.map V.typed) (V.building g') := by
  generalize step : Building.logical op a b = x at given
  rw [Building.logical] at step
  split at step
  · next found =>
      subst step
      obtain ⟨same, added⟩ := appends.result_eq_ok given
      rw [same, added]
      exact .logical left right found
  · next none =>
      subst step
      obtain ⟨rfl, rfl⟩ := pure_eq_ok.mp given
      exact .noLogical left right none

theorem computes_of_expr (e : Expr) {g g' : Building L} {v : Option (Typed L.Value)}
    (given : Building.expr e g = .ok v g') :
    Computes e (V.building g) (v.map V.typed) (V.building g') := by
  match e with
  | .integer value _ =>
    rw [Building.expr] at given
    cases found : Number.ofInt? value with
    | none =>
      rw [found] at given
      exact absurd given throw_ne_ok
    | some x =>
      rw [found] at given
      obtain ⟨rfl, rfl⟩ := pure_eq_ok.mp given
      rw [Option.map_some, Library.View.typed, appends.real]
      exact .integer found
  | .real _ _ =>
    obtain ⟨rfl, rfl⟩ := pure_eq_ok.mp given
    rw [Option.map_some, Library.View.typed, appends.real]
    exact .real
  | .bool _ _ =>
    obtain ⟨rfl, rfl⟩ := pure_eq_ok.mp given
    rw [Option.map_some, Library.View.typed, appends.bit]
    exact .bool
  | .text _ _ | .call _ _ _ => exact absurd given throw_ne_ok
  | .group inner _ => exact .group (computes_of_expr inner given)
  | .name x line => exact computes_name appends given
  | .unary op operand _ =>
    obtain ⟨a, g₁, first, given⟩ := demanded_eq_ok given
    exact computes_unary appends (computes_of_expr operand first) given
  | .binary op left right _ =>
    obtain ⟨a, g₁, first, given⟩ := demanded_eq_ok given
    obtain ⟨b, g₂, second, given⟩ := demanded_eq_ok given
    exact computes_binary appends (computes_of_expr left first) (computes_of_expr right second)
      given
  | .logical op left right _ =>
    obtain ⟨a, g₁, first, given⟩ := demanded_eq_ok given
    obtain ⟨b, g₂, second, given⟩ := demanded_eq_ok given
    exact computes_logical appends (computes_of_expr left first) (computes_of_expr right second)
      given

theorem computes_of_value (given : Building.value e g = .ok a g') :
    Computes e (V.building g) (some (V.typed a)) (V.building g') := by
  obtain ⟨o, g₁, computed, needed⟩ := bind_eq_ok.mp given
  obtain ⟨rfl, rfl⟩ := demand_eq_ok needed
  exact computes_of_expr appends e computed

end Expressions

/-! ### Statements without blocks -/

/-- A statement that has no blocks leads from one module to another. -/
inductive Line : Stmt → Builder → Builder → Prop where
  | passed {s m} : s.isPassedOver = true → Line s m m
  | print {e ending line m v m₁} : Computes e m (some v) m₁ →
      Line (.print e ending line) m (m₁.add (.print v.declared.ty v.operand))
  | old {s x e m v m₁ var} : s.setting? = some (x, e) → Computes e m (some v) m₁ →
      m₁.vars.lookup? x = some (some var) → Line s m (m₁.add (.store v.operand var.slot.number))
  | new {s x e m v m₁} : s.setting? = some (x, e) → Computes e m (some v) m₁ →
      m₁.vars.lookup? x = none →
      Line s m
        (((m₁.add (.alloca v.declared.ty)).add (.store v.operand (m₁.counter + 1))).declare x
          ⟨v.declared, ⟨m₁.counter + 1, v.declared.ty⟩⟩)

/-- The builder leaves its block for one of two and goes on elsewhere. -/
def parted (m : Builder) (test : Operand) (yes no position : Nat) : Builder :=
  (m.add (.branch test yes no)).moved position

/-- The builder leaves its block for another and goes on elsewhere. -/
def turned (m : Builder) (target position : Nat) : Builder :=
  (m.add (.jump target)).moved position

/-- Statements with all their blocks lead from one module to another. -/
inductive Builds : List Stmt → Builder → Builder → Prop where
  | nil {m : Builder} : Builds [] m m
  | line {s ss m m₁ m'} : Line s m m₁ → Builds ss m₁ m' → Builds (s :: ss) m m'
  | branch {test a o line ss m v m₁ m₂ m₃ m'} : Computes test m (some v) m₁ →
      Builds a.stmts (m₁.withBlocks.parted v.operand (m₁.counter + 1) (m₁.counter + 2)
        m₁.blocks.size) m₂ →
      Builds (ScriptLang.Block.stmtsElse o) (m₂.turned (m₁.counter + 3) (m₁.blocks.size + 1)) m₃ →
      Builds ss (m₃.turned (m₁.counter + 3) (m₁.blocks.size + 2)) m' →
      Builds (.branch test a o line :: ss) m m'
  | loop {test b line ss m v m₁ m₂ m'} :
      Computes test (m.withBlocks.turned (m.counter + 1) m.blocks.size) (some v) m₁ →
      Builds b.stmts (m₁.parted v.operand (m.counter + 2) (m.counter + 3) (m.blocks.size + 1)) m₂ →
      Builds ss (m₂.turned (m.counter + 1) (m.blocks.size + 2)) m' →
      Builds (.loop test b line :: ss) m m'

/-- A program leads from one module to another. -/
inductive Built : Program → Builder → Builder → Prop where
  | expr {e m v m'} : Computes e m v m' → Built (.expr e) m m'
  | stmt {s m m'} : Builds [s] m m' → Built (.stmt s) m m'
  | block {b m m'} : Builds b.stmts m m' → Built (.block b) m m'
  | inert {m : Builder} : Built .inert m m

section Statements

variable {L : Library} {V : L.View} {g g' g₁ g₂ g₃ : Building L} {e test : Expr}
  {line : ScriptLang.Line} {v : Typed L.Value}

theorem here_eq_ok {α : Type} {x : Ask L α} {a : α} :
    Building.here x g = .ok a g' ↔ x g = .ok a g' := by
  rw [Building.here]
  cases x g with
  | ok b g₁ => simp
  | error f g₁ => simp

variable (appends : V.Appends)
include appends

theorem line_of_assign {s : Stmt} {target : Expr}
    (setting : s.setting? = target.target?.map (·, e))
    (given : (Building.value e >>= Building.assignTo target) g = .ok () g') :
    Line s (V.building g) (V.building g') := by
  obtain ⟨v, g₁, computed, given⟩ := bind_eq_ok.mp given
  have computed := computes_of_value appends computed
  rw [Building.assignTo] at given
  cases found : target.target? with
  | none =>
    rw [found] at given
    exact absurd given throw_ne_ok
  | some x =>
    rw [found] at given setting
    simp only [Building.assign, get_bind] at given
    have same := Library.View.lookup?_vars (V := V) g₁ x
    cases known : g₁.vars.lookup? x with
    | some announced =>
      rw [known] at given same
      cases announced with
      | none => exact absurd given throw_ne_ok
      | some var =>
        rw [appends.effect_eq_ok given]
        exact .old setting computed same
    | none =>
      rw [known] at given same
      obtain ⟨slot, g₂, reserved, given⟩ := bind_eq_ok.mp given
      obtain ⟨_, g₃, stored, given⟩ := bind_eq_ok.mp given
      cases given
      obtain ⟨added, named⟩ := appends.reserve_eq_ok reserved
      have declared : V.building { g₃ with vars := g₃.vars.put x (some ⟨v.declared, slot⟩) } =
          (V.building g₃).declare x (V.entry ⟨v.declared, slot⟩) := by
        rw [Library.View.building, Table.onValues_put]
        rfl
      have line := Line.new setting computed same
      rw [declared, appends.effect_eq_ok stored, added, Library.View.entry, Effect.map,
        Effect.instr, named]
      exact line

theorem line_of_print {ending : Datum}
    (given : (Building.value e >>= Building.print) g = .ok () g') :
    Line (.print e ending line) (V.building g) (V.building g') := by
  obtain ⟨v, g₁, computed, given⟩ := bind_eq_ok.mp given
  rw [appends.effect_eq_ok given]
  exact .print (computes_of_value appends computed)

/-! ### Statements with their blocks -/

theorem jumpThenMove_eq_ok {target next : L.Label}
    (given : Building.jumpThenMove target next g = .ok () g') :
    V.building g' =
      (V.building g).turned (V.place target).number (V.place next).position := by
  obtain ⟨_, g₁, left, given⟩ := bind_eq_ok.mp given
  rw [appends.moveTo_eq_ok given, appends.leave_eq_ok left]
  rfl

theorem newBlocks_eq_ok {x y z : L.Label} (new : Building.newBlock g = .ok x g₁)
    (new' : Building.newBlock g₁ = .ok y g₂) (new'' : Building.newBlock g₂ = .ok z g') :
    V.building g' = (V.building g).withBlocks ∧
      V.place x = ⟨(V.building g).blocks.size, (V.building g).counter + 1⟩ ∧
      V.place y = ⟨(V.building g).blocks.size + 1, (V.building g).counter + 2⟩ ∧
      V.place z = ⟨(V.building g).blocks.size + 2, (V.building g).counter + 3⟩ := by
  obtain ⟨added₁, named₁⟩ := appends.newBlock_eq_ok new
  obtain ⟨added₂, named₂⟩ := appends.newBlock_eq_ok new'
  obtain ⟨added₃, named₃⟩ := appends.newBlock_eq_ok new''
  rw [added₁] at added₂ named₂
  rw [added₂] at added₃ named₃
  refine ⟨added₃, named₁, ?_, ?_⟩
  · rw [named₂, size_withBlock]
    rfl
  · rw [named₃, size_withBlock, size_withBlock]
    rfl

theorem branchHead_eq_ok {p : Building.Ahead L}
    (given : Building.branchHead test line g = .ok p g') :
    ∃ v m₁, Computes test (V.building g) (some v) m₁ ∧
      V.place p.next = ⟨m₁.blocks.size + 1, m₁.counter + 2⟩ ∧
      V.place p.last = ⟨m₁.blocks.size + 2, m₁.counter + 3⟩ ∧
      V.building g' =
        m₁.withBlocks.parted v.operand (m₁.counter + 1) (m₁.counter + 2) m₁.blocks.size := by
  obtain ⟨v, g₁, tested, given⟩ := bind_eq_ok.mp given
  refine ⟨V.typed v, V.building g₁, computes_of_value appends (here_eq_ok.mp tested), ?_⟩
  cases declared : v.declared with
  | number =>
    rw [declared] at given
    exact absurd (here_eq_ok.mp given) throw_ne_ok
  | truth =>
    rw [declared] at given
    obtain ⟨x, g₂, new₁, given⟩ := bind_eq_ok.mp given
    obtain ⟨y, g₃, new₂, given⟩ := bind_eq_ok.mp given
    obtain ⟨z, g₄, new₃, given⟩ := bind_eq_ok.mp given
    obtain ⟨_, g₅, left, given⟩ := bind_eq_ok.mp given
    obtain ⟨_, g₆, placed, given⟩ := bind_eq_ok.mp given
    obtain ⟨rfl, rfl⟩ := pure_eq_ok.mp given
    obtain ⟨added, named₁, named₂, named₃⟩ := newBlocks_eq_ok appends new₁ new₂ new₃
    refine ⟨named₂, named₃, ?_⟩
    rw [appends.moveTo_eq_ok placed, appends.leave_eq_ok left, added, Library.View.exit,
      Exit.map, named₁, named₂]
    rfl

theorem loopHead_eq_ok {p : Building.Ahead L}
    (given : Building.loopHead test line g = .ok p g') :
    ∃ v m₁, Computes test ((V.building g).withBlocks.turned ((V.building g).counter + 1)
        (V.building g).blocks.size) (some v) m₁ ∧
      V.place p.next = ⟨(V.building g).blocks.size, (V.building g).counter + 1⟩ ∧
      V.place p.last = ⟨(V.building g).blocks.size + 2, (V.building g).counter + 3⟩ ∧
      V.building g' = m₁.parted v.operand ((V.building g).counter + 2)
        ((V.building g).counter + 3) ((V.building g).blocks.size + 1) := by
  obtain ⟨x, g₁, new₁, given⟩ := bind_eq_ok.mp given
  obtain ⟨y, g₂, new₂, given⟩ := bind_eq_ok.mp given
  obtain ⟨z, g₃, new₃, given⟩ := bind_eq_ok.mp given
  obtain ⟨_, g₄, jumped, given⟩ := bind_eq_ok.mp given
  obtain ⟨v, g₅, tested, given⟩ := bind_eq_ok.mp given
  obtain ⟨added, named₁, named₂, named₃⟩ := newBlocks_eq_ok appends new₁ new₂ new₃
  have tested := computes_of_value appends (here_eq_ok.mp tested)
  rw [jumpThenMove_eq_ok appends jumped, added, named₁] at tested
  refine ⟨V.typed v, V.building g₅, tested, ?_⟩
  cases declared : v.declared with
  | number =>
    rw [declared] at given
    exact absurd (here_eq_ok.mp given) throw_ne_ok
  | truth =>
    rw [declared] at given
    obtain ⟨_, g₆, left, given⟩ := bind_eq_ok.mp given
    obtain ⟨_, g₇, placed, given⟩ := bind_eq_ok.mp given
    obtain ⟨rfl, rfl⟩ := pure_eq_ok.mp given
    refine ⟨named₁, named₃, ?_⟩
    rw [appends.moveTo_eq_ok placed, appends.leave_eq_ok left, Library.View.exit, Exit.map,
      named₂, named₃]
    rfl

end Statements

section Blocks

variable {L : Library} {V : L.View}

mutual
theorem builds_of_stmt (appends : V.Appends) (s : Stmt) {ss : List Stmt} {g g' : Building L}
    {m' : Builder} (given : Building.stmt s g = .ok () g') (rest : Builds ss (V.building g') m') :
    Builds (s :: ss) (V.building g) m' := by
  match s with
  | .print e ending line =>
    exact .line (line_of_print appends (here_eq_ok.mp given)) rest
  | .assign target e line | .assignLocal target e line =>
    exact .line (line_of_assign appends rfl (here_eq_ok.mp given)) rest
  | .branch test thenBlock elseBlock line =>
    obtain ⟨p, g₁, head, given⟩ := bind_eq_ok.mp given
    obtain ⟨v, m₁, tested, next, last, atThen⟩ := branchHead_eq_ok appends head
    obtain ⟨_, g₂, first, given⟩ := bind_eq_ok.mp given
    obtain ⟨_, g₃, jumped, given⟩ := bind_eq_ok.mp given
    obtain ⟨_, g₄, second, given⟩ := bind_eq_ok.mp given
    have first := builds_of_block appends thenBlock first
    have second := builds_of_optionalBlock appends elseBlock second
    rw [jumpThenMove_eq_ok appends jumped, next, last] at second
    rw [jumpThenMove_eq_ok appends given, last] at rest
    exact .branch tested (atThen ▸ first) second rest
  | .loop test body line =>
    obtain ⟨p, g₁, head, given⟩ := bind_eq_ok.mp given
    obtain ⟨v, m₁, tested, next, last, atBody⟩ := loopHead_eq_ok appends head
    obtain ⟨_, g₂, inner, given⟩ := bind_eq_ok.mp given
    have inner := builds_of_block appends body inner
    rw [jumpThenMove_eq_ok appends given, next, last] at rest
    exact .loop tested (atBody ▸ inner) rest
  | .func _ _ _ _ =>
    rw [Building.stmt] at given
    exact absurd (here_eq_ok.mp given) throw_ne_ok
  | .count .. | .call .. | .ret .. =>
    obtain ⟨-, rfl⟩ := pure_eq_ok.mp given
    exact .line (.passed rfl) rest

theorem builds_of_block (appends : V.Appends) (b : ScriptLang.Block) {g g' : Building L}
    (given : Building.block b g = .ok () g') :
    Builds b.stmts (V.building g) (V.building g') := by
  match b with
  | .mk ss _ => exact builds_of_stmts appends ss given

theorem builds_of_optionalBlock (appends : V.Appends) (o : Option ScriptLang.Block)
    {g g' : Building L} (given : Building.optionalBlock o g = .ok () g') :
    Builds (ScriptLang.Block.stmtsElse o) (V.building g) (V.building g') := by
  match o with
  | none =>
    obtain ⟨-, rfl⟩ := pure_eq_ok.mp given
    exact .nil
  | some b => exact builds_of_block appends b given

theorem builds_of_stmts (appends : V.Appends) (ss : List Stmt) {g g' : Building L}
    (given : Building.stmts ss g = .ok () g') : Builds ss (V.building g) (V.building g') := by
  match ss with
  | [] =>
    obtain ⟨-, rfl⟩ := pure_eq_ok.mp given
    exact .nil
  | s :: ss =>
    obtain ⟨_, g₁, first, second⟩ := bind_eq_ok.mp given
    exact builds_of_stmt appends s first (builds_of_stmts appends ss second)
end

variable {p : Program} {g g' : Building L} (appends : V.Appends)
include appends

theorem built_of_program (given : Building.program p g = .ok () g') :
    Built p (V.building g) (V.building g') := by
  cases p with
  | expr e =>
    obtain ⟨v, g₁, computed, given⟩ := bind_eq_ok.mp given
    obtain ⟨-, rfl⟩ := pure_eq_ok.mp given
    exact .expr (computes_of_expr appends e (here_eq_ok.mp computed))
  | stmt s => exact .stmt (builds_of_stmt appends s given .nil)
  | block b => exact .block (builds_of_block appends b given)
  | inert =>
    obtain ⟨-, rfl⟩ := pure_eq_ok.mp given
    exact .inert

theorem built_of_wholeProgram (given : Building.wholeProgram p (.start L) = .ok () g') :
    ∃ m, Built p empty m ∧ V.building g' = m.add .ret := by
  obtain ⟨_, g₁, built, left⟩ := bind_eq_ok.mp given
  refine ⟨V.building g₁, ?_, appends.leave_eq_ok left⟩
  rw [← appends.building_start]
  exact built_of_program appends built

end Blocks

/-! ### Straight code -/

/-- Instructions that stay in the block, and variables, were added. -/
inductive Straight (m : Builder) : Builder → Prop where
  | refl : Straight m m
  | add {m' x} : Straight m m' → x.leaves = false → Straight m (m'.add x)
  | declare {m' name v} : Straight m m' → Straight m (m'.declare name v)

theorem Straight.trans (h : Straight m m₁) (h' : Straight m₁ m₂) : Straight m m₂ := by
  induction h' with
  | refl => exact h
  | add _ stays ih => exact ih.add stays
  | declare _ ih => exact ih.declare

theorem Computes.straight {e : Expr} {v : Option (Typed Operand)} (h : Computes e m v m') :
    Straight m m' := by
  induction h with
  | integer | real | bool => exact .refl
  | group _ ih | plus _ _ _ ih | noUnary _ ih => exact ih
  | name => exact .add .refl rfl
  | arithmetic _ _ _ _ ih ih' | comparison _ _ _ _ ih ih' | logical _ _ _ ih ih' =>
    exact (ih.trans ih').add rfl
  | noBinary _ _ ih ih' | noLogical _ _ _ ih ih' => exact ih.trans ih'
  | minus _ _ _ ih | tilde _ _ _ ih => exact ih.add rfl

theorem Line.straight {s : Stmt} (h : Line s m m') : Straight m m' := by
  cases h with
  | passed => exact .refl
  | print computed | old _ computed _ => exact computed.straight.add rfl
  | new _ computed _ => exact ((computed.straight.add rfl).add rfl).declare

/-! ### Any changes -/

/-- A module was changed in any of the four ways. -/
inductive Changed (m : Builder) : Builder → Prop where
  | refl : Changed m m
  | add {m' : Builder} (x : Instr) : Changed m m' → Changed m (m'.add x)
  | withBlock {m' : Builder} : Changed m m' → Changed m m'.withBlock
  | moved {m' : Builder} (position : Nat) : Changed m m' → Changed m (m'.moved position)
  | declare {m' name v} : Changed m m' → Changed m (m'.declare name v)

theorem Changed.trans (h : Changed m m₁) (h' : Changed m₁ m₂) : Changed m m₂ := by
  induction h' with
  | refl => exact h
  | add x _ ih => exact ih.add x
  | withBlock _ ih => exact ih.withBlock
  | moved position _ ih => exact ih.moved position
  | declare _ ih => exact ih.declare

theorem Changed.withBlocks (h : Changed m m') : Changed m m'.withBlocks :=
  h.withBlock.withBlock.withBlock

theorem Changed.turned (h : Changed m m') (target position : Nat) :
    Changed m (m'.turned target position) :=
  (h.add _).moved position

theorem Changed.parted (h : Changed m m') (test : Operand) (yes no position : Nat) :
    Changed m (m'.parted test yes no position) :=
  (h.add _).moved position

theorem Straight.changed (h : Straight m m') : Changed m m' := by
  induction h with
  | refl => exact .refl
  | add _ _ ih => exact ih.add _
  | declare _ ih => exact ih.declare

theorem Builds.changed {ss : List Stmt} (h : Builds ss m m') : Changed m m' := by
  induction h with
  | nil => exact .refl
  | line one _ ih => exact one.straight.changed.trans ih
  | branch tested _ _ _ ih₁ ih₂ ih₃ =>
    have first := (tested.straight.changed.withBlocks.parted _ _ _ _).trans ih₁
    have second := (first.turned _ _).trans ih₂
    exact (second.turned _ _).trans ih₃
  | loop tested _ _ ih₁ ih₂ =>
    have test := (Changed.refl.withBlocks.turned _ _).trans tested.straight.changed
    have body := (test.parted _ _ _ _).trans ih₁
    exact (body.turned _ _).trans ih₂

theorem Changed.counter_le (h : Changed m m') : m.counter ≤ m'.counter := by
  induction h with
  | refl => exact Nat.le_refl _
  | add _ _ ih | withBlock _ ih => exact Nat.le_succ_of_le ih
  | moved _ _ ih | declare _ ih => exact ih

end IR.Builder

end ScriptLang
