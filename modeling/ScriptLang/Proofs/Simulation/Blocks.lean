import ScriptLang.Proofs.Simulation.Stmt

/-!
Branches, loops and sequences on both engines.

A branch opens a scope and a layer for the block it chooses. A loop opens one scope for all rounds;
its layer is emptied after each of them, and what the scope then binds is not known in the next
round (`Linked.forget`).
-/

namespace ScriptLang.Simulation

open Compiler (Emits Begins SameSymbols SameScope Layered Grows labelName)
open Machine (Runs Config)

variable {w : World} {c c₁ c₂ c' : Compiler} {Γ : List Layer} {st : Store} {k : Bool}
  {gl : List (Slot × Cell)} {low : Array Cell} {fr : List Frame} {fuel : Nat} {ss : List Stmt}
  {b : Block} {o : Option Block} {test : Expr} {line : Line}

/-! ### Jumps between statements -/

section
variable {out name : String}

theorem runs_to_label (begins : (c.add (.label name)).Begins w.code) :
    Runs w.code w.labels (between c Γ low fr gl out)
      (between (c.add (.label name)) Γ low fr gl out) := by
  rw [between, between, Compiler.size_add]
  exact Machine.runs_label begins.fetch

theorem runs_jump_to (located : Machine.Located w.code w.labels)
    (begins : (c.add (.jump name)).Begins w.code) (target : (c'.add (.label name)).Begins w.code) :
    Runs w.code w.labels (between c Γ low fr gl out) (between c' Γ low fr gl out) :=
  Machine.runs_jump begins.fetch (located target.fetch)

/-- A test jumps to a label if it does not hold. -/
theorem runs_test {v : Value} (located : Machine.Located w.code w.labels)
    (begins : (c.add (.jumpIfZero name)).Begins w.code)
    (target : (c'.add (.label name)).Begins w.code) (honest : v.Honest) (tag : v.tag = .bool) :
    Runs w.code w.labels ⟨c.code.size, (low ++ pile (flat Γ)).push (.value v), fr, gl, out⟩
      (between (if v.datum.truthy then c.add (.jumpIfZero name) else c') Γ low fr gl out) := by
  have pc : (if v.datum.same (.int 0) then c'.code.size else c.code.size + 1) =
      (if v.datum.truthy then c.add (.jumpIfZero name) else c').code.size := by
    rw [honest.same_zero tag]
    cases v.datum.truthy with
    | true => exact (Compiler.size_add _ _).symm
    | false => rfl
  rw [between, ← pc]
  exact Machine.runs_jumpIfZero begins.fetch (located target.fetch)

end

/-! ### Branches -/

/-- A block of a branch, in a new scope. -/
theorem outcome_block (block : SimBlock w fuel) (emits : Emits (.stmts b.stmts) c.opened c₁)
    (fit : Fit w k c.opened (some false) b.stmts) (inside : k = true → fr ≠ [])
    (layered : Layered c) (begins : c₁.closed.Begins w.code)
    (tied : Tied w c Γ st.forest gl low fr) :
    Outcome w c₁.closed (Γ.map Layer.scope) Γ low fr st.forest (between c Γ low fr gl st.output)
      (Eval.block fuel st.forest.scopes.size b
        { st with forest := (st.forest.child (top Γ)).2 }) := by
  have same := Compiler.closed_scope layered (emits.grown layered.opened)
  have begins₁ := begins.of_prefix (Compiler.prefix_closed c₁)
  have entered : Tied w c.opened (⟨st.forest.scopes.size, false, []⟩ :: Γ)
      (Store.mk (st.forest.child (top Γ)).2 st.output).forest gl low fr := tied.enter layered
  have inner := block b emits fit inside layered.opened begins₁ entered
  exact (inner.close tied.context same begins).outside tied.rooted.around

/-- The block after `else`, which may be missing. -/
theorem outcome_otherwise (block : SimBlock w fuel) (emits : Emits (.otherwise o) c c')
    (fit : ∀ b, o = some b → Fit w k c.opened (some false) b.stmts) (inside : k = true → fr ≠ [])
    (layered : Layered c) (begins : c'.Begins w.code) (tied : Tied w c Γ st.forest gl low fr) :
    Outcome w c' (Γ.map Layer.scope) Γ low fr st.forest (between c Γ low fr gl st.output)
      (o.elim (pure ()) (Eval.block fuel st.forest.scopes.size)
        { st with forest := (st.forest.child (top Γ)).2 }) := by
  cases emits with
  | noElse =>
    have keeps : Keeps [] _ _ := keeps_child st.forest (top Γ) tied.rooted.around
    exact ⟨Γ, gl, .refl Γ, keeps.mono (by simp), tied.after keeps (tied.rooted.child _), .refl _⟩
  | orElse body => exact outcome_block block body (fit _ rfl) inside layered begins tied

theorem sim_branch (located : Machine.Located w.code w.labels) (sim : SimExpr w fuel)
    (block : SimBlock w fuel) :
    Sim w (.stmt (.branch test b o line)) [.branch test b o line]
      (Eval.stmt (fuel + 1) · (.branch test b o line)) := by
  intro k c c' Γ st gl low fr emits fit inside layered begins tied
  have plain := fit.expr (e := test) (by simp [Stmt.exprs])
  have all := fit.holds
  simp only [Stmt.all, Bool.and_eq_true] at all
  simp only [Eval.stmt]
  cases emits with
  | @branch _ _ _ _ _ c₁ c₂ c₃ tested body rest =>
    have symbols₁ := tested.grown.1.symbols.trans (Compiler.thenStart_scope c₁)
    have layered₁ := symbols₁.layered layered
    have grown := body.grown layered₁.opened
    have symbols' := (Compiler.closed_scope layered₁ grown).trans
      (Compiler.elseStart_scope _ c₁.labels)
    have symbols₂ := symbols₁.trans symbols'
    have layered₂ := symbols₂.layered layered
    have begins₂ : (c₂.closed.elseStart c₁.labels).Begins w.code :=
      begins.of_add.of_prefix (rest.grown layered₂).code
    have begins₁ : c₁.thenStart.Begins w.code :=
      begins₂.of_add.of_add.of_prefix (grown.code.trans (Compiler.prefix_closed c₂))
    have same₃ := rest.otherwise_scope layered₂
    refine outcome_expr sim tested plain begins₁.of_add.of_add tied
      fun {v st₁ gl₁} honest _ tied₁ => ?_
    cases tag : v.tag with
    | bool =>
      dsimp only
      rw [Eval.childScope_bind]
      have test : Runs w.code w.labels
          ⟨c₁.code.size, (low ++ pile (flat Γ)).push (.value v), fr, gl₁, st₁.output⟩ _ :=
        runs_test located begins₁.of_add begins₂ honest tag
      cases holds : v.datum.truthy with
      | true =>
        rw [holds, if_pos rfl] at test
        have fit' : Fit w k c₁.thenStart.opened (some false) b.stmts :=
          fit.block all.1.2 (by simp +contextual [Stmt.assigned]) (by simp) symbols₁
        have then' := outcome_block block body fit' inside layered₁ begins₂.of_add.of_add
          (tied₁.same (Compiler.thenStart_scope c₁))
        rw [if_pos rfl]
        refine (then'.onward ?_ ?_).after (.refl Γ) (.refl _ _)
          (test.trans (runs_to_label begins₁))
        · exact ((Compiler.elseStart_scope _ _).trans same₃).trans ⟨rfl, rfl, rfl, rfl⟩
        · exact (runs_jump_to located begins₂.of_add begins).trans (runs_to_label begins)
      | false =>
        rw [holds, if_neg Bool.false_ne_true] at test
        have fit' : ∀ b', o = some b' →
            Fit w k (c₂.closed.elseStart c₁.labels).opened (some false) b'.stmts := by
          rintro b' rfl
          exact fit.block all.2
            (by simp +contextual [Stmt.assigned, Block.assignedElse]) (by simp) symbols₂
        have else' := outcome_otherwise block rest fit' inside layered₂ begins.of_add
          (tied₁.same ((Compiler.thenStart_scope c₁).trans symbols'))
        rw [if_neg Bool.false_ne_true]
        have ended : Outcome w (c₃.ending (c₁.labels + 3)) _ Γ low fr _ _ _ :=
          else'.onward ⟨rfl, rfl, rfl, rfl⟩ (runs_to_label begins)
        have other := ended.after (.refl Γ) (.refl _ _) (test.trans (runs_to_label begins₂))
        cases o <;> exact other
    | _ => exact .of_stuck trivial

/-! ### Loops -/

theorem simRounds_succ (located : Machine.Located w.code w.labels) (sim : SimExpr w fuel)
    (block : SimBlock w fuel) (rounds : SimRounds w fuel) : SimRounds w (fuel + 1) := by
  intro line k test b c c₁ c₂ Γ inner st gl low fr tested body plain fit inside layered begins tied
    linked
  have symbols₁ := tested.grown.1.symbols
  have symbols₂ := ((Compiler.loopStart_scope c).trans symbols₁).trans
    (Compiler.bodyStart_scope c₁ c.labels)
  have layered₂ := symbols₂.layered layered
  have grown := body.grown layered₂.opened
  have closed := Compiler.closed_scope layered₂ grown
  have begins' : c₂.Begins w.code := begins.of_add.of_add.of_prefix (Compiler.prefix_closed c₂)
  have begins₂ : (c₁.bodyStart c.labels).Begins w.code := begins'.of_prefix grown.code
  have begins₁ : c.loopStart.Begins w.code := begins₂.of_add.of_add.of_prefix tested.grown.2
  have globals : (c₁.bodyStart c.labels).globals = c.globals := symbols₂.globals
  rw [Eval.rounds]
  refine Outcome.after (.refl Γ) (.refl _ _) (runs_to_label begins₁) ?_
  refine outcome_expr sim tested plain begins₂.of_add.of_add
    (tied.same (Compiler.loopStart_scope c)) fun {v st₁ gl₁} honest keeps tied₁ => ?_
  have linked₁ := linked.keeps tied.rooted.around keeps (by simp)
  have tied₂ := tied₁.same (Compiler.bodyStart_scope c₁ c.labels)
  cases tag : v.tag with
  | bool =>
    have test' : Runs w.code w.labels
        ⟨c₁.code.size, (low ++ pile (flat Γ)).push (.value v), fr, gl₁, st₁.output⟩ _ :=
      runs_test located begins₂.of_add begins honest tag
    dsimp only
    cases holds : v.datum.truthy with
    | true =>
      rw [holds, if_pos rfl] at test'
      rw [if_pos rfl]
      have entered := tied₂.opened layered₂ (globals ▸ linked₁)
      have round := block b body fit inside layered₂.opened begins' entered
      refine (round.after (.refl _) (.refl _ _) (test'.trans (runs_to_label begins₂))).bind
        fun {Γ₂ st₂ gl₂} grown₂ keeps₂ tied₃ run => ?_
      obtain ⟨L, Δ, rfl, scope, loop, alike⟩ := grown₂.of_cons
      obtain ⟨left, pops⟩ := tied₃.close tied₂.context alike closed begins.of_add.of_add
      -- What this round has bound is still there in the next one, where nobody knows it yet.
      have same : c₂.globals = c.globals := closed.globals.trans globals
      have forgotten := tied₃.linked.forget loop
      rw [scope, loop, same] at forgotten
      have again := rounds line tested body plain fit inside layered begins
        (left.same (symbols₂.trans closed).symm) forgotten
      rw [alike.grown.top, alike.grown.scopes] at again
      exact again.after alike.grown keeps₂
        ((run.trans pops).trans (runs_jump_to located begins.of_add begins₁))
    | false =>
      rw [holds, if_neg Bool.false_ne_true] at test'
      rw [if_neg Bool.false_ne_true]
      exact ⟨Γ, gl₁, .refl Γ, .refl _ _, (tied₂.same closed).same ⟨rfl, rfl, rfl, rfl⟩,
        test'.trans (runs_to_label begins)⟩
  | _ => exact .of_stuck trivial

theorem sim_loop (rounds : SimRounds w fuel) :
    Sim w (.stmt (.loop test b line)) [.loop test b line]
      (Eval.stmt (fuel + 1) · (.loop test b line)) := by
  intro k c c' Γ st gl low fr emits fit inside layered begins tied
  have plain := fit.expr (e := test) (by simp [Stmt.exprs])
  have all := fit.holds
  simp only [Stmt.all, Bool.and_eq_true] at all
  have here := all.1
  simp only [alike, Bool.and_eq_true, Stmt.loopsPlainly, List.all_eq_true,
    Bool.not_eq_true'] at here
  simp only [Eval.stmt]
  cases emits with
  | @loop _ _ _ _ c₁ c₂ tested body =>
    have symbols := ((Compiler.loopStart_scope c).trans tested.grown.1.symbols).trans
      (Compiler.bodyStart_scope c₁ c.labels)
    have fit' : Fit w k (c₁.bodyStart c.labels).opened (some true) b.stmts :=
      fit.block all.2 (by simp [Stmt.assigned]) (fun _ => here.2) symbols
    have keeps : Keeps [] _ _ := keeps_child st.forest (top Γ) tied.rooted.around
    have tied' : Tied w c Γ (Store.mk (st.forest.child (top Γ)).2 st.output).forest gl low fr :=
      tied.after keeps (tied.rooted.child _)
    rw [Eval.childScope_bind]
    exact (rounds line tested body plain fit' inside layered begins tied'
      (tied.linked.enter tied.rooted.around true)).outside tied.rooted.around

/-! ### Sequences -/

theorem simStmts_succ (stmt : SimStmt w fuel) (stmts : SimStmts w fuel) :
    SimStmts w (fuel + 1) := by
  intro ss k c c' Γ st gl low fr emits fit inside layered begins tied
  cases emits with
  | noStmts =>
    simp only [Eval.stmts]
    exact ⟨Γ, gl, .refl Γ, .refl _ _, tied, .refl _⟩
  | moreStmts first rest =>
    have grown := first.grown layered
    have layered' := grown.layered layered
    simp only [Eval.stmts]
    refine (stmt _ first fit.head inside layered (begins.of_prefix (rest.grown layered').code)
      tied).bind fun {Γ₁ st₁ gl₁} grown₁ keeps tied₁ run => ?_
    have later := stmts _ rest (grown₁.kind ▸ fit.tail grown) inside layered' begins tied₁
    rw [grown₁.top, grown₁.scopes] at later
    exact later.after grown₁ keeps run

theorem simBlock_succ (stmts : SimStmts w fuel) : SimBlock w (fuel + 1) := by
  intro b k c c' Γ st gl low fr emits fit inside layered begins tied
  simp only [Eval.block]
  exact stmts b.stmts emits fit inside layered begins tied

theorem simStmt_succ (located : Machine.Located w.code w.labels) (sim : SimExpr w fuel)
    (call : SimCall w fuel) (block : SimBlock w fuel) (rounds : SimRounds w fuel) :
    SimStmt w (fuel + 1) := by
  intro s
  cases s with
  | print => exact sim_print sim
  | assign => exact sim_assign sim
  | assignLocal => exact sim_assignLocal sim
  | branch => exact sim_branch located sim block
  | loop => exact sim_loop rounds
  | call => exact sim_call call
  | ret => exact sim_ret sim
  | count | func =>
    intro k c c' Γ st gl low fr emits fit
    have here := Stmt.holds_of_all fit.holds
    simp [alike, Compiler.inner, Stmt.isFunc, Stmt.isCount] at here

end ScriptLang.Simulation
