import ScriptLang.Proofs.Eval.Results
import ScriptLang.Proofs.Machine.Operations
import ScriptLang.Proofs.Simulation.World

/-!
Expressions on both engines.

Where the evaluator finds the value of an expression, the machine runs through its code and pushes
the same value. Calls are left to a hypothesis here: it speaks of evaluations with less fuel.
-/

namespace ScriptLang.Simulation

open Compiler (lastIndexed? Emits Begins SameScope)
open Machine (Runs)

variable {w : World} {c c' : Compiler} {Γ : List Layer} {st st' : Store} {e : Expr}
  {gl : List (Slot × Cell)} {low s : Array Cell} {fr : List Frame} {n : String} {fuel : Nat}

/-- The cells of a call and what is below them are at the bottom of a stack. -/
def Covers (low : Array Cell) (Γ : List Layer) (s : Array Cell) : Prop :=
  (low ++ pile (flat Γ)).toList <+: s.toList

theorem Covers.push (covers : Covers low Γ s) (cell : Cell) : Covers low Γ (s.push cell) := by
  unfold Covers
  rw [Array.toList_push]
  exact covers.trans (List.prefix_append _ _)

theorem Covers.cell {x : Held} {i : Nat} (covers : Covers low Γ s)
    (found : seek n (flat Γ) = some (x, i)) : s[i + low.size]? = some (.value x.value) := by
  obtain ⟨rest, eq⟩ := covers
  have cell := cell_of_seek found
  have lt : i < (pile (flat Γ)).size := (Array.getElem?_eq_some_iff.mp cell).1
  rw [← Array.getElem?_toList, ← eq, List.getElem?_append_left (by simp at lt ⊢; omega),
    Array.getElem?_toList, Array.getElem?_append_right (by omega), Nat.add_sub_cancel, cell]

/-- The value of an expression is pushed. -/
def Pushed (w : World) (c c' : Compiler) (st st' : Store) (s : Array Cell) (fr : List Frame)
    (gl : List (Slot × Cell)) (v : Value) : Prop :=
  v.Honest ∧ ∃ gl', Rooted w st'.forest gl' ∧ Keeps [] st.forest st'.forest ∧
    Runs w.code w.labels ⟨c.code.size, s, fr, gl, st.output⟩
      ⟨c'.code.size, s.push (.value v), fr, gl', st'.output⟩

/-- Expressions with some fuel do the same on both engines. -/
def SimExpr (w : World) (fuel : Nat) : Prop :=
  ∀ {e c c' Γ st st' r gl low fr s}, Emits (.expr e) c c' →
    e.all (fun e => !e.isLogical) = true → c'.Begins w.code → Tied w c Γ st.forest gl low fr →
    Covers low Γ s → Eval.expr fuel (top Γ) e st = .ok r st' →
    ∃ v, r = some v ∧ Pushed w c c' st st' s fr gl v

/-- Calls with some fuel do the same on both engines. -/
def SimCall (w : World) (fuel : Nat) : Prop :=
  ∀ {n es line c c' Γ st st' r gl low fr s}, Emits (.expr (.call n es line)) c c' →
    Expr.allOf (fun e => !e.isLogical) es = true → c'.Begins w.code →
    Tied w c Γ st.forest gl low fr → Covers low Γ s →
    Eval.call fuel (top Γ) n es line st = .ok r st' →
    ∃ v, r = some v ∧ Pushed w c c' st st' s fr gl v

/-- One instruction that pushes a value. -/
theorem pushed_add {i : Instr} {v : Value} (tied : Tied w c Γ st.forest gl low fr)
    (honest : v.Honest)
    (run : Runs w.code w.labels ⟨c.code.size, s, fr, gl, st.output⟩
      ⟨c.code.size + 1, s.push (.value v), fr, gl, st.output⟩) :
    Pushed w c (c.add i) st st s fr gl v := by
  refine ⟨honest, gl, tied.rooted, .refl _ _, ?_⟩
  rw [Compiler.size_add]
  exact run

theorem pushed_name {line : Line} (emits : Emits (.expr (.name n line)) c c')
    (begins : c'.Begins w.code) (tied : Tied w c Γ st.forest gl low fr) (covers : Covers low Γ s)
    {v : Value} (found : st.forest.getVar (top Γ) n = some v) :
    Pushed w c c' st st s fr gl v := by
  cases emits with
  | name loads =>
    cases loads with
    | global known top =>
      rcases tied.context.known known with ⟨deep, -⟩ | ⟨-, none, global⟩
      · exact absurd top deep
      · obtain ⟨v', found', honest, held⟩ := tied.getVar_global none global
        rw [found] at found'
        cases found'
        exact pushed_add tied honest (Machine.runs_loadGlobal begins.fetch held)
    | loc known deep =>
      rcases tied.context.known known with ⟨-, x, sought⟩ | ⟨top, -⟩
      · obtain ⟨found', honest⟩ := tied.getVar_local sought
        rw [found] at found'
        cases found'
        exact pushed_add tied honest
          (Machine.runs_loadLocal begins.fetch tied.base (covers.cell sought))
      · exact absurd top deep

/-- Two values that an operation replaces by its result. -/
theorem simExpr_binary (sim : SimExpr w fuel) {op : Token} {l r : Expr} {line : Line} {o : BinaryOp}
    {c₁ c₂ : Compiler} {result : Option Value} (known : Compiler.opcode? op.kind = some o)
    (left : Emits (.expr l) c c₁) (right : Emits (.expr r) c₁ c₂)
    (plain : l.all (fun e => !e.isLogical) = true) (plain' : r.all (fun e => !e.isLogical) = true)
    (begins : (c₂.add (.binary o)).Begins w.code) (tied : Tied w c Γ st.forest gl low fr)
    (covers : Covers low Γ s)
    (done : Eval.expr (fuel + 1) (top Γ) (.binary op l r line) st = .ok result st') :
    ∃ v, result = some v ∧ Pushed w c (c₂.add (.binary o)) st st' s fr gl v := by
  rw [Eval.expr] at done
  obtain ⟨a, st₁, first, done⟩ := Eval.demand_bind_eq_ok.mp done
  obtain ⟨b, st₂, second, done⟩ := Eval.demand_bind_eq_ok.mp done
  rw [Compiler.opcode?_eq_ofKind?] at known
  obtain ⟨v, rfl, applied, rfl⟩ := Eval.binary_eq_ok known done
  have begins₂ := begins.of_add
  obtain ⟨_, ⟨⟩, _, gl₁, rooted₁, keeps₁, run₁⟩ := sim left plain
    (begins₂.of_prefix right.grown.2) tied covers first
  have tied₁ := (tied.after keeps₁ rooted₁).same left.grown.1.symbols
  obtain ⟨_, ⟨⟩, _, gl₂, rooted₂, keeps₂, run₂⟩ := sim right plain' begins₂ tied₁
    (covers.push _) second
  refine ⟨v, rfl, Value.honest_of_apply applied, gl₂, rooted₂, keeps₁.trans keeps₂, ?_⟩
  rw [Compiler.size_add]
  exact (run₁.trans run₂).trans (Machine.runs_binary begins.fetch
    ((Machine.result_eq_apply o a b).trans applied))

/-- A value that a sign changes. -/
theorem simExpr_unary (sim : SimExpr w fuel) {op : Token} {line : Line} {result : Option Value}
    (emits : Emits (.expr (.unary op e line)) c c') (plain : e.all (fun e => !e.isLogical) = true)
    (begins : c'.Begins w.code) (tied : Tied w c Γ st.forest gl low fr) (covers : Covers low Γ s)
    (done : Eval.expr (fuel + 1) (top Γ) (.unary op e line) st = .ok result st') :
    ∃ v, result = some v ∧ Pushed w c c' st st' s fr gl v := by
  rw [Eval.expr] at done
  obtain ⟨v, st₁, first, done⟩ := Eval.demand_bind_eq_ok.mp done
  cases emits with
  | minus kind inner =>
    obtain ⟨r, rfl, negated, rfl⟩ := Eval.minus_eq_ok kind done
    obtain ⟨_, ⟨⟩, _, gl₁, rooted, keeps, run⟩ := sim inner plain begins.of_add tied covers first
    refine ⟨r, rfl, Value.honest_of_neg negated, gl₁, rooted, keeps, ?_⟩
    rw [Compiler.size_add]
    exact run.trans (Machine.runs_neg begins.fetch
      ((Machine.negative_eq_neg v).trans negated))
  | @tilde _ _ _ _ c₁ kind inner =>
    obtain ⟨tag, rfl, rfl⟩ := Eval.tilde_eq_ok kind done
    obtain ⟨_, ⟨⟩, honest, gl₁, rooted, keeps, run⟩ :=
      sim inner plain begins.of_add.of_add tied covers first
    refine ⟨_, rfl, Value.honest_bool _, gl₁, rooted, keeps, ?_⟩
    have fetch := begins.fetch
    rw [Compiler.size_add] at fetch
    rw [Compiler.size_add, Compiler.size_add]
    exact (run.trans (Machine.runs_push begins.of_add.fetch)).trans
      (Machine.runs_bitwise fetch (honest.xor_true tag))
  | plus kind inner =>
    obtain ⟨rfl, rfl⟩ := Eval.plus_eq_ok kind done
    obtain ⟨_, ⟨⟩, pushed⟩ := sim inner plain begins tied covers first
    exact ⟨v, rfl, pushed⟩

theorem simExpr_succ (sim : SimExpr w fuel) (call : SimCall w fuel) : SimExpr w (fuel + 1) := by
  intro e c c' Γ st st' r gl low fr s emits plain begins tied covers done
  cases e with
  | integer value line =>
    cases emits with
    | integer known =>
      rw [Eval.expr] at done
      simp only [known] at done
      cases done
      exact ⟨_, rfl, pushed_add tied (Value.honest_number _) (Machine.runs_push begins.fetch)⟩
  | real value line =>
    cases emits
    rw [Eval.expr] at done
    cases done
    exact ⟨_, rfl, pushed_add tied (Value.honest_number _) (Machine.runs_push begins.fetch)⟩
  | bool value line =>
    cases emits
    rw [Eval.expr] at done
    cases done
    exact ⟨_, rfl, pushed_add tied (Value.honest_bool _) (Machine.runs_push begins.fetch)⟩
  | text value line =>
    cases emits
    rw [Eval.expr] at done
    cases done
    exact ⟨_, rfl, pushed_add tied (Value.honest_string _) (Machine.runs_push begins.fetch)⟩
  | unary op operand line =>
    simp only [Expr.all, Bool.and_eq_true] at plain
    exact simExpr_unary sim emits plain.2 begins tied covers done
  | binary op left right line =>
    simp only [Expr.all, Bool.and_eq_true] at plain
    cases emits with
    | binary known left right =>
      exact simExpr_binary sim known left right plain.1.2 plain.2 begins tied covers done
  | logical op left right line => simp [Expr.all, Expr.isLogical] at plain
  | group inner line =>
    simp only [Expr.all, Bool.and_eq_true] at plain
    cases emits with
    | group inner =>
      rw [Eval.expr] at done
      exact sim inner plain.2 begins tied covers done
  | name n line =>
    rw [Eval.expr] at done
    obtain ⟨v, found, rfl⟩ := map_eq_ok.mp done
    obtain ⟨found, rfl⟩ := Eval.lookup_eq_ok found
    exact ⟨v, rfl, pushed_name emits begins tied covers found⟩
  | call n args line =>
    simp only [Expr.all, Bool.and_eq_true] at plain
    rw [Eval.expr] at done
    exact call emits plain.2 begins tied covers done

/-! ### Arguments -/

/-- The cells of some values, the last on top. -/
def cells (vs : List Value) : Array Cell := (vs.map Cell.value).toArray

/-- Arguments with some fuel do the same on both engines. -/
def SimExprs (w : World) (fuel : Nat) : Prop :=
  ∀ {es c c' Γ st st' rs gl low fr s}, Emits (.exprs es) c c' →
    Expr.allOf (fun e => !e.isLogical) es = true → c'.Begins w.code →
    Tied w c Γ st.forest gl low fr → Covers low Γ s → Eval.exprs fuel (top Γ) es st = .ok rs st' →
    ∃ vs gl', rs = vs.map some ∧ vs.length = es.length ∧ (∀ v ∈ vs, v.Honest) ∧
      Rooted w st'.forest gl' ∧ Keeps [] st.forest st'.forest ∧
      Runs w.code w.labels ⟨c.code.size, s, fr, gl, st.output⟩
        ⟨c'.code.size, s ++ cells vs, fr, gl', st'.output⟩

theorem simExprs_succ (sim : SimExpr w fuel) (sims : SimExprs w fuel) : SimExprs w (fuel + 1) := by
  intro es c c' Γ st st' rs gl low fr s emits plain begins tied covers done
  cases emits with
  | noExprs =>
    rw [Eval.exprs] at done
    cases done
    refine ⟨[], gl, rfl, rfl, by simp, tied.rooted, .refl _ _, ?_⟩
    rw [cells]
    simpa using Runs.refl _
  | @moreExprs e es _ c₁ _ first rest =>
    rw [Expr.allOf, Bool.and_eq_true] at plain
    rw [Eval.exprs] at done
    obtain ⟨r, st₁, done₁, done⟩ := bind_eq_ok.mp done
    obtain ⟨rs', st₂, done₂, done⟩ := bind_eq_ok.mp done
    obtain ⟨rfl, rfl⟩ := pure_eq_ok.mp done
    obtain ⟨v, rfl, honest, gl₁, rooted₁, keeps₁, run₁⟩ := sim first plain.1
      (begins.of_prefix rest.grown.2) tied covers done₁
    have tied₁ := (tied.after keeps₁ rooted₁).same first.grown.1.symbols
    obtain ⟨vs, gl₂, rfl, length, honests, rooted₂, keeps₂, run₂⟩ :=
      sims rest plain.2 begins tied₁ (covers.push _) done₂
    refine ⟨v :: vs, gl₂, rfl, ?_, ?_, rooted₂, keeps₁.trans keeps₂, ?_⟩
    · rw [List.length_cons, List.length_cons, length]
    · exact List.forall_mem_cons.mpr ⟨honest, honests⟩
    · have eq : s ++ cells (v :: vs) = s.push (.value v) ++ cells vs := by simp [cells]
      rw [eq]
      exact run₁.trans run₂

end ScriptLang.Simulation
