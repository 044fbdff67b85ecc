import ScriptLang.Proofs.IR.Building
import ScriptLang.Proofs.Tree.Everywhere

/-!
The places of a program where values are computed, and what is known there.

A variable is made by the first assignment to it in the order of the text, wherever this stands.
What is known at a place are the variables made before it in the text, and which of them were made
in the block of the place or in a block around it: only these are made on every way to the place.
-/

namespace ScriptLang.IR

/-- What is known at a place of a program. -/
structure Knowledge where
  /-- The variables that were made before, with their types. -/
  made : Table Declared
  /-- Those that were made in the block of the place or in a block around it. -/
  around : List String

/-- A place where a value is computed, and the variable that it is assigned to, if any. -/
structure Site where
  knowledge : Knowledge
  value : Expr
  target? : Option String

namespace Knowledge

/-- Nothing is known. -/
def none : Knowledge := ⟨[], []⟩

/-- The type that the value of an expression is declared to have. -/
def declared? (k : Knowledge) : Expr → Option Declared
  | .integer _ _ | .real _ _ => some .number
  | .bool _ _ => some .truth
  | .group inner _ => k.declared? inner
  | .name x _ => k.made.lookup? x
  | .binary op _ _ _ =>
    if (arithmetic? op.kind).isSome then some .number
    else if (comparison? op.kind).isSome then some .truth
    else .none
  | .unary op _ _ =>
    match op.kind with
    | .minus | .plus => some .number
    | .tilde => some .truth
    | _ => .none
  | .logical op _ _ _ => (connective? op.kind).map fun _ => .truth
  | .text _ _ | .call _ _ _ => .none

/-- What is known after an assignment. -/
def assign (k : Knowledge) (x : String) (value : Expr) : Knowledge :=
  match k.made.lookup? x, k.declared? value with
  | .none, some d => ⟨k.made.put x d, x :: k.around⟩
  | _, _ => k

/-- What is known after a block, if `inner` is known at its end. -/
def leave (k inner : Knowledge) : Knowledge := ⟨inner.made, k.around⟩

mutual
/-- What is known after a statement. -/
def after : Knowledge → Stmt → Knowledge
  | k, .assign target value _ | k, .assignLocal target value _ =>
    match target.target? with
    | some x => k.assign x value
    | .none => k
  | k, .branch _ thenBlock elseBlock _ =>
    k.leave (afterElse (k.leave (afterBlock k thenBlock)) elseBlock)
  | k, .loop _ body _ => k.leave (afterBlock k body)
  | k, _ => k

def afterBlock : Knowledge → ScriptLang.Block → Knowledge
  | k, .mk ss _ => afterAll k ss

def afterElse : Knowledge → Option ScriptLang.Block → Knowledge
  | k, .none => k
  | k, some b => afterBlock k b

def afterAll : Knowledge → List Stmt → Knowledge
  | k, [] => k
  | k, s :: ss => afterAll (after k s) ss
end

mutual
/-- The places in a statement in order. Counted loops, calls and returns have none. -/
def sites : Knowledge → Stmt → List Site
  | k, .print value _ _ => [⟨k, value, .none⟩]
  | k, .assign target value _ | k, .assignLocal target value _ => [⟨k, value, target.target?⟩]
  | k, .branch test thenBlock elseBlock _ =>
    ⟨k, test, .none⟩ ::
      (sitesBlock k thenBlock ++ sitesElse (k.leave (k.afterBlock thenBlock)) elseBlock)
  | k, .loop test body _ => ⟨k, test, .none⟩ :: sitesBlock k body
  | _, _ => []

def sitesBlock : Knowledge → ScriptLang.Block → List Site
  | k, .mk ss _ => sitesAll k ss

def sitesElse : Knowledge → Option ScriptLang.Block → List Site
  | _, .none => []
  | k, some b => sitesBlock k b

def sitesAll : Knowledge → List Stmt → List Site
  | _, [] => []
  | k, s :: ss => sites k s ++ sitesAll (k.after s) ss
end

variable (k : Knowledge)

theorem afterBlock_eq (b : ScriptLang.Block) : k.afterBlock b = k.afterAll b.stmts := by
  cases b
  rfl

theorem afterElse_eq (o : Option ScriptLang.Block) :
    k.afterElse o = k.afterAll (ScriptLang.Block.stmtsElse o) := by
  cases o with
  | none => rfl
  | some b => exact k.afterBlock_eq b

theorem sitesBlock_eq (b : ScriptLang.Block) : k.sitesBlock b = k.sitesAll b.stmts := by
  cases b
  rfl

theorem sitesElse_eq (o : Option ScriptLang.Block) :
    k.sitesElse o = k.sitesAll (ScriptLang.Block.stmtsElse o) := by
  cases o with
  | none => rfl
  | some b => exact k.sitesBlock_eq b

theorem after_of_setting {s : Stmt} {x : String} {value : Expr}
    (setting : s.setting? = some (x, value)) :
    k.after s = k.assign x value ∧ k.sites s = [⟨k, value, some x⟩] := by
  cases s with
  | assign target _ _ | assignLocal target _ _ =>
    obtain ⟨y, found, same⟩ := Option.map_eq_some_iff.mp setting
    cases same
    simp [after, sites, found]
  | _ => cases setting

theorem after_of_isPassedOver {s : Stmt} (passed : s.isPassedOver = true) :
    k.after s = k ∧ k.sites s = [] := by
  cases s with
  | count | call | ret => exact ⟨rfl, rfl⟩
  | _ => exact Bool.noConfusion passed

/-! ### Tests of a place -/

/-- A name is read where its variable was made in a block around. -/
def reads : Expr → Bool
  | .name x _ => x ∈ k.around
  | _ => true

/-- A variable is assigned to where it was made in a block around, or made by the assignment. -/
def writes (x : String) : Bool := !k.made.has x || x ∈ k.around

/-- The operands of a connective are declared to be truth values. -/
def connects : Expr → Bool
  | .logical op left right _ =>
    (connective? op.kind).isNone ||
      (k.declared? left = some .truth && k.declared? right = some .truth)
  | _ => true

end Knowledge

/-- All variables of a place were made in the blocks around it. -/
def Site.confined (s : Site) : Bool :=
  s.value.all s.knowledge.reads && s.target?.all s.knowledge.writes

/-- All connectives of a place have operands that are declared to be truth values. -/
def Site.truthful (s : Site) : Bool := s.value.all s.knowledge.connects

/-- The places of a program. -/
def sitesOf : Program → List Site
  | .expr e => [⟨.none, e, none⟩]
  | .stmt s => Knowledge.none.sites s
  | .block b => Knowledge.none.sitesBlock b
  | .inert => []

end ScriptLang.IR
