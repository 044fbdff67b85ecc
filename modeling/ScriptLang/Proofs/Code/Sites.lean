import ScriptLang.Proofs.Code.Growth
import ScriptLang.Proofs.Code.Symbols

/-!
The sites of a program: where and in which state each of its parts is compiled.

A site is a part of a program with the state in which the compiler comes to it and the variables
that are in scope there. The variables are found from the tree alone: an assignment to a name that
is not in scope defines a variable, so do `local` and the parameters of a function, and what a block
defines is forgotten after it. `Child` goes from a part to the parts that it is compiled from, and
`Reaches` from a program to all of its sites. No two declarations of functions are compiled at the
same place of the code (`Reaches.func_unique`).
-/

namespace ScriptLang.Compiler

/-! ### Variables in scope -/

/-- Where the value of a variable is kept. -/
inductive Address where
  | global (slot : Nat)
  /-- A cell of the running call. -/
  | cell (index : Nat)
  deriving DecidableEq, Repr

/-- A variable, with the address that its value was put at where it was defined. -/
structure Var where
  name : String
  address : Address
  /-- The variable was defined outside of all blocks. -/
  outside : Bool
  deriving DecidableEq, Repr

/-- The variables in scope, the latest first. -/
structure Vars where
  list : List Var
  /-- The place is outside of all blocks. -/
  outside : Bool
  deriving DecidableEq, Repr

namespace Vars

/-- The variables before a program. -/
def empty : Vars := ⟨[], true⟩

/-- The variable that a name refers to: the latest one in scope. -/
def find? (vs : Vars) (x : String) : Option Var := vs.list.find? (·.name == x)

/-- How many global slots are taken. -/
def slots (vs : Vars) : Nat :=
  vs.list.countP fun v => match v.address with | .global _ => true | .cell _ => false

/-- How many cells of the stack are taken. -/
def cells (vs : Vars) : Nat :=
  vs.list.countP fun v => match v.address with | .global _ => false | .cell _ => true

/-- A new variable on the stack. -/
def withCell (vs : Vars) (x : String) : Vars :=
  { vs with list := ⟨x, .cell vs.cells, vs.outside⟩ :: vs.list }

/-- A new variable in a global slot. -/
def withSlot (vs : Vars) (x : String) : Vars :=
  { vs with list := ⟨x, .global vs.slots, vs.outside⟩ :: vs.list }

/-- The variables after an assignment to a name, which defines a variable if there is none. -/
def assigned (vs : Vars) (x : String) : Vars :=
  if (vs.find? x).isSome then vs
  else if vs.outside then vs.withSlot x else vs.withCell x

/-- The variables after a statement. -/
def after (vs : Vars) : Stmt → Vars
  | .assign target _ _ => target.target?.elim vs vs.assigned
  | .assignLocal target _ _ => target.target?.elim vs vs.withCell
  | _ => vs

/-- The variables at the start of a block. -/
def inside (vs : Vars) : Vars := { vs with outside := false }

/-- The variables with parameters. -/
def withParams (vs : Vars) : List Param → Vars
  | [] => vs
  | p :: ps => (vs.withCell p.name).withParams ps

theorem find?_withCell (vs : Vars) (x y : String) :
    (vs.withCell x).find? y =
      if x = y then some ⟨x, .cell vs.cells, vs.outside⟩ else vs.find? y := by
  by_cases same : x = y <;> simp [withCell, find?, same]

theorem cells_withCell (vs : Vars) (x : String) : (vs.withCell x).cells = vs.cells + 1 := by
  simp [withCell, cells]

theorem find?_withParams_of_not_mem {vs : Vars} {ps : List Param} {x : String}
    (absent : x ∉ ps.map (·.name)) : (vs.withParams ps).find? x = vs.find? x := by
  induction ps generalizing vs with
  | nil => rfl
  | cons p ps ih =>
    have ne : p.name ≠ x := (List.ne_of_not_mem_cons absent).symm
    rw [withParams, ih (List.not_mem_of_not_mem_cons absent), find?_withCell, if_neg ne]

/-- Parameters of distinct names take cells in their order. -/
theorem find?_withParams {vs : Vars} {ps : List Param} {p : Param} {i : Nat}
    (distinct : (ps.map (·.name)).Nodup) (param : ps[i]? = some p) :
    (vs.withParams ps).find? p.name = some ⟨p.name, .cell (vs.cells + i), vs.outside⟩ := by
  induction ps generalizing vs i with
  | nil => cases param
  | cons q ps ih =>
    obtain ⟨absent, distinct⟩ := List.nodup_cons.mp distinct
    cases i with
    | zero =>
      cases param
      rw [withParams, find?_withParams_of_not_mem absent, find?_withCell, if_pos rfl]
      rfl
    | succ i =>
      rw [withParams, ih distinct param, cells_withCell, Nat.add_right_comm, Nat.add_assoc]
      rfl

end Vars

variable {c c₁ c₂ c' : Compiler} {vs : Vars}

theorem Emits.code_prefix {p : Part} (h : Emits p c c') (layered : Layered c) :
    c.code.toList <+: c'.code.toList := by
  have grown := h.grown
  cases p with
  | expr | exprs => exact grown.2
  | stmt | stmts | otherwise => exact (grown layered).code

theorem Emits.layered {p : Part} (h : Emits p c c') (layered : Layered c) : Layered c' := by
  have grown := h.grown
  cases p with
  | expr | exprs => exact grown.1.symbols.layered layered
  | stmt | stmts | otherwise => exact (grown layered).layered layered

/-! ### Sites -/

/-- A part of a program, the variables in scope at it, and the state in which the compiler comes to
it. -/
structure Site where
  part : Part
  vars : Vars
  state : Compiler

/-- Where the body of a function is compiled. -/
def bodyOf (c : Compiler) (name : String) (ps : List Param) : Compiler :=
  (c.funcStart name ps.length).opened.withParams ps

/-- The second site is a part that the first is compiled from. -/
inductive Child : Site → Site → Prop where
  | left {op l r line vs c} : Child ⟨.expr (.binary op l r line), vs, c⟩ ⟨.expr l, vs, c⟩
  | right {op l r line vs c c₁} : expr l c = .ok () c₁ →
      Child ⟨.expr (.binary op l r line), vs, c⟩ ⟨.expr r, vs, c₁⟩
  | operand {op e line vs c} : Child ⟨.expr (.unary op e line), vs, c⟩ ⟨.expr e, vs, c⟩
  | leftWord {op l r line vs c} : Child ⟨.expr (.logical op l r line), vs, c⟩ ⟨.expr l, vs, c⟩
  | rightWord {op l r line vs c c₁} : expr l c = .ok () c₁ →
      Child ⟨.expr (.logical op l r line), vs, c⟩ ⟨.expr r, vs, c₁⟩
  | grouped {e line vs c} : Child ⟨.expr (.group e line), vs, c⟩ ⟨.expr e, vs, c⟩
  | args {n es line vs c} : Child ⟨.expr (.call n es line), vs, c⟩ ⟨.exprs es, vs, c⟩
  | firstArg {e es vs c} : Child ⟨.exprs (e :: es), vs, c⟩ ⟨.expr e, vs, c⟩
  | moreArgs {e es vs c c₁} : expr e c = .ok () c₁ →
      Child ⟨.exprs (e :: es), vs, c⟩ ⟨.exprs es, vs, c₁⟩
  | printed {e ending line vs c} : Child ⟨.stmt (.print e ending line), vs, c⟩ ⟨.expr e, vs, c⟩
  | test {e b o line vs c} : Child ⟨.stmt (.branch e b o line), vs, c⟩ ⟨.expr e, vs, c⟩
  | thenBlock {e b o line vs c c₁} : expr e c = .ok () c₁ →
      Child ⟨.stmt (.branch e b o line), vs, c⟩ ⟨.stmts b.stmts, vs.inside, c₁.thenStart.opened⟩
  | otherwise {e b o line vs c c₁ c₂} : expr e c = .ok () c₁ →
      stmts b.stmts c₁.thenStart.opened = .ok () c₂ →
      Child ⟨.stmt (.branch e b o line), vs, c⟩
        ⟨.otherwise o, vs, c₂.closed.elseStart c₁.labels⟩
  | elseBlock {b vs c} : Child ⟨.otherwise (some b), vs, c⟩ ⟨.stmts b.stmts, vs.inside, c.opened⟩
  | loopTest {e b line vs c} : Child ⟨.stmt (.loop e b line), vs, c⟩ ⟨.expr e, vs, c.loopStart⟩
  | loopBody {e b line vs c c₁} : expr e c.loopStart = .ok () c₁ →
      Child ⟨.stmt (.loop e b line), vs, c⟩
        ⟨.stmts b.stmts, vs.inside, (c₁.bodyStart c.labels).opened⟩
  | assigned {target e line vs c} :
      Child ⟨.stmt (.assign target e line), vs, c⟩ ⟨.expr e, vs, c⟩
  | assignedLocal {target e line vs c} :
      Child ⟨.stmt (.assignLocal target e line), vs, c⟩ ⟨.expr e, vs, c⟩
  | body {name ps b line vs c} :
      Child ⟨.stmt (.func name ps b line), vs, c⟩
        ⟨.stmts b.stmts, vs.inside.withParams ps, c.bodyOf name ps⟩
  | called {n es line vs c} :
      Child ⟨.stmt (.call n es line), vs, c⟩ ⟨.expr (.call n es line), vs, c⟩
  | returned {e line vs c} : Child ⟨.stmt (.ret e line), vs, c⟩ ⟨.expr e, vs, c⟩
  | first {s ss vs c} : Child ⟨.stmts (s :: ss), vs, c⟩ ⟨.stmt s, vs, c⟩
  | rest {s ss vs c c₁} : stmt s c = .ok () c₁ →
      Child ⟨.stmts (s :: ss), vs, c⟩ ⟨.stmts ss, vs.after s, c₁⟩

/-- The second site is a part of the first, at any depth. -/
inductive Reaches : Site → Site → Prop where
  | refl (a : Site) : Reaches a a
  | child {a b d : Site} : Child a b → Reaches b d → Reaches a d

theorem Reaches.trans {a b d : Site} (h : Reaches a b) (h' : Reaches b d) : Reaches a d := by
  induction h with
  | refl => exact h'
  | child first _ ih => exact .child first (ih h')

theorem Reaches.down {a b d : Site} (h : Reaches a b) (next : Child b d) : Reaches a d :=
  h.trans (.child next (.refl d))

theorem bodyOf_layered {name : String} {ps : List Param} (layered : Layered c) :
    Layered (c.bodyOf name ps) :=
  (grows_withParams _ ps).layered ((grows_funcStart c name ps.length).layered layered).opened

/-- How the symbols at a part differ from those at the part around it. -/
inductive Turn (a b : Site) : Prop where
  /-- The symbols are the same. -/
  | same : SameSymbols a.state b.state → b.vars = a.vars → Turn a b
  /-- The symbols are the same, and a block is opened. -/
  | inside : SameSymbols a.state.opened b.state → b.vars = a.vars.inside → Turn a b
  /-- A statement has been compiled. -/
  | after {s : Stmt} : Child a ⟨.stmt s, a.vars, a.state⟩ → Emits (.stmt s) a.state b.state →
      b.vars = a.vars.after s → Turn a b
  /-- A function begins. -/
  | enters {name ps body line} : a.part = .stmt (.func name ps body line) →
      b.state = a.state.bodyOf name ps → b.vars = a.vars.inside.withParams ps → Turn a b

variable {a b d : Site}

theorem Turn.refl_state (vars : b.vars = a.vars) (state : b.state = a.state) : Turn a b := by
  refine .same ?_ vars
  rw [state]
  exact ⟨rfl, rfl, rfl, rfl⟩

theorem Turn.layered (turn : Turn a b) (layered : Layered a.state) : Layered b.state := by
  cases turn with
  | same same => exact same.layered layered
  | inside same => exact same.layered layered.opened
  | after _ emits => exact emits.layered layered
  | @enters name ps _ _ _ state =>
    rw [state]
    exact bodyOf_layered layered

/-- A part of a part: how it is compiled, and that its code lies inside the code around it. -/
structure Lies (a b : Site) (a' b' : Compiler) : Prop where
  emits : Emits b.part b.state b'
  turn : Turn a b
  before : a.state.code.toList <+: b.state.code.toList
  after : b'.code.toList <+: a'.code.toList

variable {a' b' d' : Compiler}

/-- A part that comes first. -/
theorem Lies.first (emits : Emits b.part b.state b') (vars : b.vars = a.vars)
    (state : b.state = a.state) (after : b'.code.toList <+: a'.code.toList) : Lies a b a' b' := by
  have same : b.state.code = a.state.code := congrArg code state
  exact ⟨emits, .refl_state vars state, same ▸ List.prefix_refl _, after⟩

/-- How the code of a branch is laid out: test, block, block after `else`. -/
theorem branch_layout {e : Expr} {block : Block} {o : Option Block} {c₃ : Compiler}
    (test : Emits (.expr e) c c₁) (body : Emits (.stmts block.stmts) c₁.thenStart.opened c₂)
    (other : Emits (.otherwise o) (c₂.closed.elseStart c₁.labels) c₃) (layered : Layered c) :
    SameSymbols c (c₂.closed.elseStart c₁.labels) ∧
      c₁.thenStart.code.toList <+: c₂.code.toList ∧
      c₂.code.toList <+: (c₂.closed.elseStart c₁.labels).code.toList ∧
      (c₂.closed.elseStart c₁.labels).code.toList <+: c₃.code.toList := by
  have layered₁ : Layered c₁.thenStart := (grows_thenStart c₁).layered (test.layered layered)
  have grown := body.grown layered₁.opened
  have same : SameSymbols c (c₂.closed.elseStart c₁.labels) :=
    (test.grown.1.symbols.trans (thenStart_scope c₁)).trans
      ((closed_scope layered₁ grown).trans (elseStart_scope _ _))
  refine ⟨same, grown.code, (prefix_closed c₂).trans (grows_elseStart _ _).code, ?_⟩
  exact other.code_prefix (same.layered layered)

/-- How the code of a loop is laid out: test, body. -/
theorem loop_layout {e : Expr} {block : Block} (test : Emits (.expr e) c.loopStart c₁)
    (body : Emits (.stmts block.stmts) (c₁.bodyStart c.labels).opened c₂) (layered : Layered c) :
    SameSymbols c (c₁.bodyStart c.labels) ∧
      (c₁.bodyStart c.labels).code.toList <+: c₂.code.toList ∧
      c₂.code.toList <+: ((c₂.closed.goBack c.labels).ending (c.labels + 3)).code.toList := by
  have same := ((loopStart_scope c).trans test.grown.1.symbols).trans
    (bodyStart_scope c₁ c.labels)
  refine ⟨same, body.code_prefix (same.layered layered).opened, ?_⟩
  exact ((prefix_closed c₂).trans (prefix_add _ _)).trans (prefix_add _ _)

theorem prefix_bodyOf (c : Compiler) (name : String) (ps : List Param) :
    (c.funcStart name ps.length).code.toList <+: (c.bodyOf name ps).code.toList :=
  (grows_withParams (c.funcStart name ps.length).opened ps).code

/-- The end of a function follows its body. -/
theorem prefix_funcEnd (c : Compiler) (n : Nat) :
    c.code.toList <+: (c.closed.funcEnd.ending n).code.toList :=
  ((prefix_closed c).trans (grows_funcEnd _).code).trans (prefix_add _ _)

theorem Child.lies (h : Child a b) (emits : Emits a.part a.state a')
    (layered : Layered a.state) : ∃ b', Lies a b a' b' := by
  cases h with
  | left =>
    cases emits with
    | binary _ left right =>
      exact ⟨_, .first left rfl rfl (right.grown.2.trans (prefix_add _ _))⟩
  | right again =>
    cases emits with
    | binary _ left right =>
      obtain rfl := left.unique again
      exact ⟨_, right, .same left.grown.1.symbols rfl, left.grown.2, prefix_add _ _⟩
  | operand =>
    cases emits with
    | minus _ inner => exact ⟨_, .first inner rfl rfl (prefix_add _ _)⟩
    | tilde _ inner =>
      exact ⟨_, .first inner rfl rfl ((prefix_add _ _).trans (prefix_add _ _))⟩
    | plus _ inner => exact ⟨_, .first inner rfl rfl (List.prefix_refl _)⟩
  | leftWord =>
    cases emits with
    | logical _ left right =>
      exact ⟨_, .first left rfl rfl (right.grown.2.trans (prefix_add _ _))⟩
  | rightWord again =>
    cases emits with
    | logical _ left right =>
      obtain rfl := left.unique again
      exact ⟨_, right, .same left.grown.1.symbols rfl, left.grown.2, prefix_add _ _⟩
  | grouped =>
    cases emits with
    | group inner => exact ⟨_, .first inner rfl rfl (List.prefix_refl _)⟩
  | args =>
    cases emits with
    | call _ _ args =>
      exact ⟨_, .first args rfl rfl ((prefix_add _ _).trans (prefix_add _ _))⟩
  | firstArg =>
    cases emits with
    | moreExprs first rest => exact ⟨_, .first first rfl rfl rest.grown.2⟩
  | moreArgs again =>
    cases emits with
    | moreExprs first rest =>
      obtain rfl := first.unique again
      exact ⟨_, rest, .same first.grown.1.symbols rfl, first.grown.2, List.prefix_refl _⟩
  | printed =>
    cases emits with
    | print value | println _ value => exact ⟨_, .first value rfl rfl (prefix_add _ _)⟩
  | test =>
    cases emits with
    | @branch _ _ _ _ _ c₁ _ _ test body other =>
      obtain ⟨-, first, second, third⟩ := branch_layout test body other layered
      refine ⟨_, .first test rfl rfl ?_⟩
      exact (((grows_thenStart c₁).code.trans first).trans (second.trans third)).trans
        (prefix_add _ _)
  | thenBlock again =>
    cases emits with
    | @branch _ _ _ _ _ c₁ _ _ test body other =>
      obtain rfl := test.unique again
      obtain ⟨-, -, second, third⟩ := branch_layout test body other layered
      have same := test.grown.1.symbols.trans (thenStart_scope c₁)
      refine ⟨_, body, .inside ?_ rfl, ?_, (second.trans third).trans (prefix_add _ _)⟩
      · exact ⟨same.locals, same.globals, same.functions, congrArg (· + 1) same.depth⟩
      · exact test.grown.2.trans (grows_thenStart c₁).code
  | otherwise again again' =>
    cases emits with
    | @branch _ _ _ _ _ c₁ _ _ test body other =>
      obtain rfl := test.unique again
      obtain rfl := body.unique again'
      obtain ⟨same, first, second, -⟩ := branch_layout test body other layered
      refine ⟨_, other, .same same rfl, ?_, prefix_add _ _⟩
      exact (test.grown.2.trans (grows_thenStart c₁).code).trans (first.trans second)
  | elseBlock =>
    cases emits with
    | orElse body =>
      exact ⟨_, body, .inside ⟨rfl, rfl, rfl, rfl⟩ rfl, List.prefix_refl _, prefix_closed _⟩
  | @loopTest _ _ _ _ c =>
    cases emits with
    | loop test body =>
      obtain ⟨-, first, second⟩ := loop_layout test body layered
      refine ⟨_, test, .same (loopStart_scope c) rfl, (grows_loopStart c).code, ?_⟩
      exact ((grows_bodyStart _ c.labels).code.trans first).trans second
  | @loopBody _ _ _ _ c _ again =>
    cases emits with
    | loop test body =>
      obtain rfl := test.unique again
      obtain ⟨same, -, second⟩ := loop_layout test body layered
      refine ⟨_, body, .inside ?_ rfl, ?_, second⟩
      · exact ⟨same.locals, same.globals, same.functions, congrArg (· + 1) same.depth⟩
      · exact ((grows_loopStart c).code.trans test.grown.2).trans (grows_bodyStart _ _).code
  | assigned =>
    cases emits with
    | assign value _ stores => exact ⟨_, .first value rfl rfl (grows_stores stores).code⟩
  | assignedLocal =>
    cases emits with
    | assignLocal value => exact ⟨_, .first value rfl rfl (grows_withLocal _ _).code⟩
  | body =>
    cases emits with
    | func _ _ body =>
      refine ⟨_, body, .enters rfl rfl rfl, ?_, prefix_funcEnd _ _⟩
      exact (grows_funcStart _ _ _).code.trans (prefix_bodyOf _ _ _)
  | called =>
    cases emits with
    | callStmt called => exact ⟨_, .first called rfl rfl (prefix_add _ _)⟩
  | returned =>
    cases emits with
    | ret value => exact ⟨_, .first value rfl rfl (prefix_add _ _)⟩
  | first =>
    cases emits with
    | moreStmts first rest =>
      exact ⟨_, .first first rfl rfl (rest.code_prefix (first.layered layered))⟩
  | rest again =>
    cases emits with
    | moreStmts first rest =>
      obtain rfl := first.unique again
      exact ⟨_, rest, .after .first first rfl, first.code_prefix layered, List.prefix_refl _⟩

/-- What is known of a site of a part. -/
structure Reached (a d : Site) (a' d' : Compiler) : Prop where
  emits : Emits d.part d.state d'
  layered : Layered d.state
  before : a.state.code.toList <+: d.state.code.toList
  after : d'.code.toList <+: a'.code.toList

theorem Reaches.reached (h : Reaches a d) (emits : Emits a.part a.state a')
    (layered : Layered a.state) : ∃ d', Reached a d a' d' := by
  induction h generalizing a' with
  | refl => exact ⟨a', emits, layered, List.prefix_refl _, List.prefix_refl _⟩
  | child first _ ih =>
    obtain ⟨b', lies⟩ := first.lies emits layered
    obtain ⟨d', deeper⟩ := ih lies.emits (lies.turn.layered layered)
    exact ⟨d', deeper.emits, deeper.layered, lies.before.trans deeper.before,
      deeper.after.trans lies.after⟩

/-- What every turn keeps holds at every site. -/
theorem Reaches.keeps {root : Site} {P : Site → Prop} (h : Reaches root d)
    (emits : Emits root.part root.state a') (layered : Layered root.state) (start : P root)
    (step : ∀ a b, Reaches root a → Layered a.state → Turn a b → P a → P b) : P d := by
  suffices deeper : ∀ a a', Reaches root a → Emits a.part a.state a' → Layered a.state → P a →
      Reaches a d → P d from deeper root a' (.refl root) emits layered start h
  clear start emits layered
  intro a a' above emits layered holds below
  induction below generalizing a' with
  | refl => exact holds
  | child first rest ih =>
    obtain ⟨b', lies⟩ := first.lies emits layered
    refine ih h b' (above.down first) lies.emits (lies.turn.layered layered) ?_
    exact step _ _ above layered lies.turn holds

/-! ### Places in the code -/

/-- The code of a site ends before that of another begins. -/
def Before (b d : Site) : Prop :=
  ∀ b', Emits b.part b.state b' → b'.code.size ≤ d.state.code.size

theorem before_of_code (compiled : b.part.compile b.state = .ok () c₁)
    (pre : c₁.code.toList <+: d.state.code.toList) : Before b d := by
  intro b' emits
  rw [emits.unique compiled]
  simpa using pre.length_le

theorem prefix_elseStart (c : Compiler) (n : Nat) :
    c.code.toList <+: (c.closed.elseStart n).code.toList :=
  (prefix_closed c).trans (grows_elseStart _ n).code

theorem branch_order {e : Expr} {block : Block} {o : Option Block} {line : Line}
    (emits : Emits (.stmt (.branch e block o line)) c c') (layered : Layered c)
    (tested : expr e c = .ok () c₁) (done : stmts block.stmts c₁.thenStart.opened = .ok () c₂) :
    c₁.thenStart.code.toList <+: (c₂.closed.elseStart c₁.labels).code.toList := by
  cases emits with
  | branch test body other =>
    obtain rfl := test.unique tested
    obtain rfl := body.unique done
    obtain ⟨-, first, second, -⟩ := branch_layout test body other layered
    exact first.trans second

/-- Of two parts of a part one comes before the other. -/
theorem Child.ordered (h : Child a b) (h' : Child a d) (emits : Emits a.part a.state a')
    (layered : Layered a.state) : b = d ∨ Before b d ∨ Before d b := by
  cases h with
  | left =>
    cases h' with
    | left => exact .inl rfl
    | right done => exact .inr (.inl (before_of_code done (List.prefix_refl _)))
  | right done =>
    cases h' with
    | left => exact .inr (.inr (before_of_code done (List.prefix_refl _)))
    | right again =>
      cases done.symm.trans again
      exact .inl rfl
  | leftWord =>
    cases h' with
    | leftWord => exact .inl rfl
    | rightWord done => exact .inr (.inl (before_of_code done (List.prefix_refl _)))
  | rightWord done =>
    cases h' with
    | leftWord => exact .inr (.inr (before_of_code done (List.prefix_refl _)))
    | rightWord again =>
      cases done.symm.trans again
      exact .inl rfl
  | firstArg =>
    cases h' with
    | firstArg => exact .inl rfl
    | moreArgs done => exact .inr (.inl (before_of_code done (List.prefix_refl _)))
  | moreArgs done =>
    cases h' with
    | firstArg => exact .inr (.inr (before_of_code done (List.prefix_refl _)))
    | moreArgs again =>
      cases done.symm.trans again
      exact .inl rfl
  | test =>
    cases h' with
    | test => exact .inl rfl
    | thenBlock done => exact .inr (.inl (before_of_code done (grows_thenStart _).code))
    | otherwise done done' =>
      have pre := (grows_thenStart _).code.trans (branch_order emits layered done done')
      exact .inr (.inl (before_of_code done pre))
  | thenBlock done =>
    cases h' with
    | test => exact .inr (.inr (before_of_code done (grows_thenStart _).code))
    | thenBlock again =>
      cases done.symm.trans again
      exact .inl rfl
    | otherwise again done' =>
      cases done.symm.trans again
      exact .inr (.inl (before_of_code done' (prefix_elseStart _ _)))
  | otherwise done done' =>
    cases h' with
    | test =>
      have pre := (grows_thenStart _).code.trans (branch_order emits layered done done')
      exact .inr (.inr (before_of_code done pre))
    | thenBlock again =>
      cases done.symm.trans again
      exact .inr (.inr (before_of_code done' (prefix_elseStart _ _)))
    | otherwise again again' =>
      cases done.symm.trans again
      cases done'.symm.trans again'
      exact .inl rfl
  | loopTest =>
    cases h' with
    | loopTest => exact .inl rfl
    | loopBody done =>
      exact .inr (.inl (before_of_code done (grows_bodyStart _ _).code))
  | loopBody done =>
    cases h' with
    | loopTest => exact .inr (.inr (before_of_code done (grows_bodyStart _ _).code))
    | loopBody again =>
      cases done.symm.trans again
      exact .inl rfl
  | first =>
    cases h' with
    | first => exact .inl rfl
    | rest done => exact .inr (.inl (before_of_code done (List.prefix_refl _)))
  | rest done =>
    cases h' with
    | first => exact .inr (.inr (before_of_code done (List.prefix_refl _)))
    | rest again =>
      cases done.symm.trans again
      exact .inl rfl
  | operand | grouped | args | printed | elseBlock | assigned | assignedLocal | body | called
    | returned =>
      cases h'
      exact .inl rfl

/-- A declaration of a function, with its site. -/
structure Decl where
  name : String
  params : List Param
  body : Block
  line : Line
  vars : Vars
  state : Compiler

namespace Decl

/-- Where a function is declared. -/
def site (f : Decl) : Site := ⟨.stmt (.func f.name f.params f.body f.line), f.vars, f.state⟩

/-- Where the body of a function begins. -/
def inner (f : Decl) : Site :=
  ⟨.stmts f.body.stmts, f.vars.inside.withParams f.params, f.state.bodyOf f.name f.params⟩

/-- The number of the first instruction of a function, its label. -/
def entry (f : Decl) : Nat := f.state.code.size + 1

theorem child (f : Decl) : Child f.site f.inner := .body

theorem of_child {f : Decl} (h : Child f.site b) : b = f.inner := by
  cases h
  rfl

theorem site_inj {f g : Decl} (h : f.site = g.site) : f = g := by
  obtain ⟨_, _, _, _, _, _⟩ := f
  obtain ⟨_, _, _, _, _, _⟩ := g
  cases h
  rfl

theorem prefix_inner (f : Decl) :
    (f.state.funcStart f.name f.params.length).code.toList <+: f.inner.state.code.toList :=
  prefix_bodyOf _ _ _

theorem size_lt_inner (f : Decl) : f.state.code.size + 1 < f.inner.state.code.size := by
  have le := f.prefix_inner.length_le
  simp only [Array.length_toList, funcStart, size_add] at le
  exact le

/-- The code of a function: its body and its end. -/
theorem emits_inner {f : Decl} (h : Emits f.site.part f.state c') :
    ∃ c₁, Emits f.inner.part f.inner.state c₁ ∧
      c' = c₁.closed.funcEnd.ending (f.state.labels + 1) := by
  cases h with
  | func _ _ body => exact ⟨_, body, rfl⟩

theorem layered_inner {f : Decl} (layered : Layered f.state) : Layered f.inner.state :=
  bodyOf_layered layered

end Decl

variable {f g : Decl}

/-- A declaration has code. -/
theorem Reaches.size_lt (h : Reaches b f.site) (emits : Emits b.part b.state b')
    (layered : Layered b.state) : f.state.code.size < b'.code.size := by
  obtain ⟨e, inner⟩ := h.reached emits layered
  obtain ⟨c₁, body, rfl⟩ := Decl.emits_inner inner.emits
  have le := f.size_lt_inner
  have le₁ := (body.code_prefix (Decl.layered_inner inner.layered)).length_le
  have le₂ := ((prefix_funcEnd c₁ _).trans inner.after).length_le
  simp only [Array.length_toList] at le₁ le₂
  omega

theorem Reaches.size_le (h : Reaches b f.site) (emits : Emits b.part b.state b')
    (layered : Layered b.state) : b.state.code.size ≤ f.state.code.size := by
  obtain ⟨_, inner⟩ := h.reached emits layered
  simpa [Decl.site] using inner.before.length_le

/-- A declaration inside a function comes after the start of the function. -/
theorem Reaches.size_lt_inner (h : Reaches f.inner g.site) (emits : Emits f.site.part f.state c')
    (layered : Layered f.state) : f.state.code.size < g.state.code.size := by
  obtain ⟨_, body, -⟩ := Decl.emits_inner emits
  have le := h.size_le body (Decl.layered_inner layered)
  have lt := f.size_lt_inner
  omega

/-- No two functions are declared at one place of the code. -/
theorem Reaches.func_unique (h : Reaches a f.site) (h' : Reaches a g.site)
    (emits : Emits a.part a.state a') (layered : Layered a.state)
    (same : f.state.code.size = g.state.code.size) : f = g := by
  generalize target : f.site = x at h
  induction h generalizing a' with
  | refl =>
    subst target
    generalize target' : g.site = y at h'
    cases h' with
    | refl => exact Decl.site_inj target'.symm
    | child first rest =>
      subst target'
      obtain rfl := Decl.of_child first
      have lt := rest.size_lt_inner emits layered
      omega
  | @child a b x first rest ih =>
    subst target
    generalize target' : g.site = y at h'
    cases h' with
    | refl =>
      subst target'
      obtain rfl := Decl.of_child first
      have lt := rest.size_lt_inner emits layered
      omega
    | @child _ b₂ _ first' rest' =>
      subst target'
      obtain ⟨b', lies⟩ := first.lies emits layered
      obtain ⟨b₂', lies'⟩ := first'.lies emits layered
      have layered₁ := lies.turn.layered layered
      have layered₂ := lies'.turn.layered layered
      rcases first.ordered first' emits layered with rfl | before | before
      · exact ih rest' lies.emits layered₁ rfl
      · have lt := rest.size_lt lies.emits layered₁
        have le := before b' lies.emits
        have le' := rest'.size_le lies'.emits layered₂
        omega
      · have lt := rest'.size_lt lies'.emits layered₂
        have le := before b₂' lies'.emits
        have le' := rest.size_le lies.emits layered₁
        omega

end ScriptLang.Compiler
