import ScriptLang.Proofs.Simulation.Outcome

/-!
Statements on both engines.

A statement is executed alike if its names are settled: a name that the compiler does not know yet
is no global of the evaluator (`Fit.fresh`). New variables then go to the innermost block on both
sides, or to the place where an earlier round of a loop has put them. All facts are about
evaluations with some fuel, and assume the same of those with less.
-/

namespace ScriptLang.Simulation

open Compiler (lastIndexed? Emits Begins SameSymbols SameScope Layered Grows Stores)
open Machine (Runs Config)

variable {w : World} {c c₁ c₂ c' : Compiler} {Γ : List Layer} {L : Layer} {st : Store} {k : Bool}
  {gl : List (Slot × Cell)} {low : Array Cell} {fr : List Frame} {ts : List Nat} {a : Config}
  {fuel h i : Nat} {x n : String} {v : Value} {y : Held} {s : Stmt} {ss : List Stmt} {b : Block}
  {o : Option Bool} {e test : Expr} {line : Line}

/-! ### Stores -/

/-- A new variable in the scope of the innermost block, or where its name was bound before. -/
theorem Tied.hold {f : Forest Value Closure} (place : Place f (Knows c.globals) L Γ x h)
    (honest : v.Honest) (tied : Tied w c (L :: Γ) f gl low fr) :
    Keeps ((L :: Γ).map Layer.scope) f (f.setLocal h x (some v)) ∧
      Tied w (c.withLocal x) ({ L with vars := ⟨x, h, v⟩ :: L.vars } :: Γ)
        (f.setLocal h x (some v)) gl low fr := by
  have mem : h ∈ (L :: Γ).map Layer.scope := by
    cases place with
    | own => exact List.mem_cons_self
    | old ne home =>
      rcases List.mem_append.mp (homeIn_mem home).1 with mem | mem
      · exact mem
      · exact absurd (List.mem_singleton.mp mem) ne
  have ne := tied.linked.scope_ne_zero mem
  have lt := (tied.linked.chain tied.rooted.around).lt_size h (List.mem_append_left _ mem)
  obtain ⟨names, placed, globals, functions, deep⟩ := tied.context
  refine ⟨keeps_set mem ne,
    ⟨?_, ⟨?_, placed.globals⟩, globals, functions, fun _ => deep (List.cons_ne_nil _ _)⟩,
    tied.linked.hold place v, tied.rooted.set_inner lt ne honest, tied.base⟩
  · change (c.locals.push _).toList.map (·.name) = _
    rw [Array.toList_push, List.map_append, names, flat_cons]
    simp [flat_cons]
  · intro s mem
    rcases Array.mem_push.mp mem with mem | rfl
    · exact placed.locals s mem
    · exact deep (List.cons_ne_nil _ _)

theorem passed_hold (place : Place st.forest (Knows c.globals) L Γ x h) (honest : v.Honest)
    (begins : (c.withLocal x).Begins w.code) (tied : Tied w c (L :: Γ) st.forest gl low fr) :
    Passed w (c.withLocal x) ((L :: Γ).map Layer.scope) (L :: Γ) low fr st.forest
      ⟨c.code.size, (low ++ pile (flat (L :: Γ))).push (.value v), fr, gl, st.output⟩
      { st with forest := st.forest.setLocal h x (some v) } := by
  obtain ⟨keeps, tied'⟩ := tied.hold place honest
  refine ⟨{ L with vars := ⟨x, h, v⟩ :: L.vars } :: Γ, gl, ⟨rfl, rfl⟩, keeps, tied', ?_⟩
  have stack : low ++ pile (flat ({ L with vars := ⟨x, h, v⟩ :: L.vars } :: Γ)) =
      (low ++ pile (flat (L :: Γ))).push (.value v) := Array.append_push
  rw [between, stack, Compiler.withLocal, Compiler.size_add]
  exact Machine.runs_setSlot begins.fetch

/-- A global that no layer hides. -/
theorem passed_global {s : Symbol} (none : seek x (flat Γ) = none)
    (known : lastIndexed? c.globals x = some (s, i)) (honest : v.Honest)
    (begins : (c.add (.storeGlobal (.index i))).Begins w.code)
    (tied : Tied w c Γ st.forest gl low fr) :
    Passed w (c.add (.storeGlobal (.index i))) ts Γ low fr st.forest
      ⟨c.code.size, (low ++ pile (flat Γ)).push (.value v), fr, gl, st.output⟩
      { st with forest := st.forest.setVar (top Γ) x (some v) } := by
  have found := tied.context.globals known
  have bound : st.forest.binds 0 x = true := by
    obtain ⟨v, entry, -⟩ := tied.rooted.held found
    exact Forest.binds_of_bound entry
  have home : st.forest.holder? (top Γ) x = some 0 := by
    rw [tied.holder?_eq, tied.linked.home_global none (by simp [Knows, known])]
    exact homeIn_cons_of_binds bound
  have set : st.forest.setVar (top Γ) x (some v) = st.forest.setLocal 0 x (some v) := by
    rw [Forest.setVar, home]
    rfl
  rw [set]
  refine ⟨Γ, _, .refl Γ, keeps_set_root bound, ⟨?_, tied.linked.set bound (.inl none),
    tied.rooted.set_global found honest, tied.base⟩, ?_⟩
  · exact tied.context.same ((SameScope.refl c).add _).symbols
  · rw [between, Compiler.size_add]
    exact Machine.runs_storeGlobal begins.fetch

theorem set_append (s t : Array Cell) (i : Nat) (cell : Cell) :
    (s ++ t).setIfInBounds (i + s.size) cell = s ++ t.setIfInBounds i cell := by
  rw [Array.setIfInBounds_append_right (Nat.le_add_left _ _), Nat.add_sub_cancel]

/-- A variable of a layer. -/
theorem passed_local (sought : seek x (flat Γ) = some (y, i)) (honest : v.Honest)
    (begins : (c.add (.storeLocal (.index i))).Begins w.code)
    (tied : Tied w c Γ st.forest gl low fr) :
    Passed w (c.add (.storeLocal (.index i))) (Γ.map Layer.scope) Γ low fr st.forest
      ⟨c.code.size, (low ++ pile (flat Γ)).push (.value v), fr, gl, st.output⟩
      { st with forest := st.forest.setVar (top Γ) x (some v) } := by
  obtain ⟨ne, home, -⟩ := tied.linked.home sought
  have mem := tied.linked.home_mem sought
  have lt := (tied.linked.chain tied.rooted.around).lt_size _ (List.mem_append_left _ mem)
  have set : st.forest.setVar (top Γ) x (some v) = st.forest.setLocal y.home x (some v) := by
    rw [Forest.setVar, tied.holder?_eq, home]
    rfl
  have alike := alike_assign x v Γ
  rw [set]
  refine ⟨assign x v Γ, gl, alike.grown, keeps_set mem ne, ⟨?_, tied.linked.assign sought v,
    tied.rooted.set_inner lt ne honest, tied.base⟩, ?_⟩
  · exact (tied.context.alike alike).same ((SameScope.refl c).add _).symbols
  · have size : i < (pile (flat Γ)).size := (Array.getElem?_eq_some_iff.mp (cell_of_seek sought)).1
    rw [between, flat_assign, pile_setFirst sought, Compiler.size_add, ← set_append]
    refine Machine.runs_storeLocal begins.fetch tied.base ?_
    rw [Array.size_append]
    omega

/-- An assignment inside a block. -/
theorem passed_stores (stores : Stores c x c') (honest : v.Honest) (inside : Γ ≠ [])
    (fresh : c.varSymbol? x = none → lastIndexed? w.globals x = none)
    (begins : c'.Begins w.code) (tied : Tied w c Γ st.forest gl low fr) :
    Passed w c' (Γ.map Layer.scope) Γ low fr st.forest
      ⟨c.code.size, (low ++ pile (flat Γ)).push (.value v), fr, gl, st.output⟩
      { st with forest := st.forest.setVar (top Γ) x (some v) } := by
  cases stores with
  | newGlobal _ depth => exact absurd depth (tied.context.deep inside)
  | newLocal absent =>
    obtain ⟨none, unknown⟩ := tied.context.unknown absent
    have free := tied.rooted.free (fresh absent)
    cases Γ with
    | nil => exact absurd rfl inside
    | cons L Γ =>
      rw [Forest.setVar, tied.holder?_eq]
      cases home : homeIn st.forest (ids (L :: Γ)) x with
      | none =>
        refine passed_hold (.own fun _ => ⟨?_, fun known => known unknown⟩) honest begins tied
        rw [flat_cons, seek_append_eq_none] at none
        exact none.2
      | some h =>
        -- An earlier round of a loop has bound the name.
        have ne : h ≠ 0 := by
          rintro rfl
          have bound := (homeIn_mem home).2
          rw [free] at bound
          cases bound
        exact passed_hold (.old ne home none) honest begins tied
  | global known depth =>
    rcases tied.context.known known with ⟨deep, -⟩ | ⟨-, none, known⟩
    · exact absurd depth deep
    · exact passed_global none known honest begins tied
  | loc known deep =>
    rcases tied.context.known known with ⟨-, y, sought⟩ | ⟨depth, -⟩
    · exact passed_local sought honest begins tied
    · exact absurd depth deep

/-! ### Statements that are executed alike -/

/-- Whether the innermost block is that of a loop, if there is a block. -/
def kind (Γ : List Layer) : Option Bool := Γ.head?.map Layer.loop

/-- Statements that are executed alike, inside a function (`k`) or outside of all, in a block of a
kind `o`. -/
structure Fit (w : World) (k : Bool) (c : Compiler) (o : Option Bool) (ss : List Stmt) : Prop where
  alike : Stmt.allOf (alike k) ss = true
  /-- `local` stands in a block, and in none of a loop. -/
  plain : ∀ s ∈ ss, s.isLocal = true → o = some false
  /-- Outside of all blocks nothing is assigned. -/
  direct : o = none → ∀ s ∈ ss, s.sets? = none
  /-- A name that is not known yet is no global. -/
  fresh : ∀ n ∈ Stmt.assignedBy ss, c.varSymbol? n = none → lastIndexed? w.globals n = none

theorem Grown.kind {Γ' : List Layer} (h : Grown Γ Γ') : kind Γ' = Simulation.kind Γ := by
  have loops := congrArg (fun l => l.head?.map Prod.snd) h.frames
  simpa [Simulation.kind, Function.comp_def] using loops

theorem Fit.head (fit : Fit w k c o (s :: ss)) : Fit w k c o [s] := by
  obtain ⟨alike, plain, direct, fresh⟩ := fit
  rw [Stmt.allOf, Bool.and_eq_true] at alike
  refine ⟨by rw [Stmt.allOf, alike.1]; rfl, ?_, ?_, ?_⟩
  · intro s' mem
    rw [List.mem_singleton.mp mem]
    exact plain s List.mem_cons_self
  · intro none s' mem
    rw [List.mem_singleton.mp mem]
    exact direct none s List.mem_cons_self
  · intro n mem
    rw [Stmt.assignedBy, Stmt.assignedBy, List.append_nil] at mem
    exact fresh n (List.mem_append_left _ mem)

theorem Fit.tail (fit : Fit w k c o (s :: ss)) (grown : Grows c c') : Fit w k c' o ss := by
  obtain ⟨alike, plain, direct, fresh⟩ := fit
  rw [Stmt.allOf, Bool.and_eq_true] at alike
  refine ⟨alike.2, fun s mem => plain s (List.mem_cons_of_mem _ mem),
    fun none s mem => direct none s (List.mem_cons_of_mem _ mem), ?_⟩
  intro n mem absent
  exact fresh n (List.mem_append_right _ mem) (grown.varSymbol?_eq_none absent)

theorem Fit.holds (fit : Fit w k c o [s]) : s.all (Simulation.alike k) = true := by
  have all := fit.alike
  rwa [Stmt.allOf, Stmt.allOf, Bool.and_true] at all

/-- The expressions of a statement. -/
theorem Fit.expr (fit : Fit w k c o [s]) (mem : e ∈ s.exprs) :
    e.all (fun e => !e.isLogical) = true := by
  have here := Stmt.holds_of_all fit.holds
  simp only [Simulation.alike, Bool.and_eq_true, Stmt.exprsAll, List.all_eq_true] at here
  exact here.1.1.2 e mem

/-- A block of a statement. -/
theorem Fit.block {loop : Bool} (fit : Fit w k c o [s]) (all : b.all (Simulation.alike k) = true)
    (sub : ∀ n ∈ b.assigned, n ∈ s.assigned)
    (plain : loop = true → ∀ s ∈ b.stmts, s.isLocal = false) (same : SameSymbols c c') :
    Fit w k c'.opened (some loop) b.stmts := by
  refine ⟨Block.all_eq _ b ▸ all, ?_, (by simp), ?_⟩
  · intro s mem here
    cases loop with
    | false => rfl
    | true =>
      rw [plain rfl s mem] at here
      cases here
  · intro n mem absent
    rw [← Block.assigned_eq] at mem
    refine fit.fresh n (List.mem_append_left _ (sub n mem)) ?_
    rw [Compiler.varSymbol?_eq_none] at absent ⊢
    rw [← same.locals, ← same.globals]
    exact absent

/-- A part of a program is executed alike, in the innermost scope. -/
def Sim (w : World) (p : Compiler.Part) (ss : List Stmt) (run : Nat → Eval Unit) : Prop :=
  ∀ {k c c' Γ st gl low fr}, Emits p c c' → Fit w k c (kind Γ) ss → (k = true → fr ≠ []) →
    Layered c → c'.Begins w.code → Tied w c Γ st.forest gl low fr →
    Outcome w c' (Γ.map Layer.scope) Γ low fr st.forest (between c Γ low fr gl st.output)
      (run (top Γ) st)

def SimStmt (w : World) (fuel : Nat) : Prop := ∀ s, Sim w (.stmt s) [s] (Eval.stmt fuel · s)

def SimStmts (w : World) (fuel : Nat) : Prop := ∀ ss, Sim w (.stmts ss) ss (Eval.stmts fuel · ss)

def SimBlock (w : World) (fuel : Nat) : Prop :=
  ∀ b, Sim w (.stmts b.stmts) b.stmts (Eval.block fuel · b)

/-- The rounds of a loop are executed alike, in a scope that is used over and over again. -/
def SimRounds (w : World) (fuel : Nat) : Prop :=
  ∀ line {k test b c c₁ c₂ Γ inner st gl low fr}, Emits (.expr test) c.loopStart c₁ →
    Emits (.stmts b.stmts) (c₁.bodyStart c.labels).opened c₂ →
    test.all (fun e => !e.isLogical) = true →
    Fit w k (c₁.bodyStart c.labels).opened (some true) b.stmts → (k = true → fr ≠ []) →
    Layered c → ((c₂.closed.goBack c.labels).ending (c.labels + 3)).Begins w.code →
    Tied w c Γ st.forest gl low fr →
    Linked st.forest (Knows c.globals) (⟨inner, true, []⟩ :: Γ) →
    Outcome w ((c₂.closed.goBack c.labels).ending (c.labels + 3)) (inner :: Γ.map Layer.scope) Γ
      low fr st.forest (between c Γ low fr gl st.output)
      (Eval.rounds fuel (top Γ) inner test b line st)

/-! ### Simple statements -/

/-- A statement that begins with an expression. -/
theorem outcome_expr (sim : SimExpr w fuel) (emits : Emits (.expr e) c c₁)
    (plain : e.all (fun e => !e.isLogical) = true) (begins : c₁.Begins w.code)
    (tied : Tied w c Γ st.forest gl low fr) {rest : Value → Eval Unit}
    (next : ∀ {v st₁ gl₁}, v.Honest → Keeps [] st.forest st₁.forest →
      Tied w c₁ Γ st₁.forest gl₁ low fr → Outcome w c' ts Γ low fr st₁.forest
        ⟨c₁.code.size, (low ++ pile (flat Γ)).push (.value v), fr, gl₁, st₁.output⟩
        (rest v st₁)) :
    Outcome w c' ts Γ low fr st.forest (between c Γ low fr gl st.output)
      ((do let o ← Eval.expr fuel (top Γ) e; let v ← Eval.demand o; rest v) st) := by
  rcases Eval.demand_cases ((Eval.plainExprs fuel).expr (top Γ) e) rest st with
    ⟨v, st₁, done, eq⟩ | stuck
  · obtain ⟨_, ⟨⟩, honest, gl₁, rooted, keeps, run⟩ :=
      sim emits plain begins tied (List.prefix_refl _) done
    rw [eq]
    exact (next honest keeps ((tied.after keeps rooted).same emits.grown.1.symbols)).after
      (.refl Γ) (keeps.mono (by simp)) run
  · exact .of_stuck stuck

/-- An instruction after which the stack has just the variables. -/
theorem passed_add {i : Instr} {f : Forest Value Closure} {out : String}
    (tied : Tied w c Γ f gl low fr)
    (run : Runs w.code w.labels a ⟨c.code.size + 1, low ++ pile (flat Γ), fr, gl, out⟩) :
    Passed w (c.add i) ts Γ low fr f a ⟨f, out⟩ := by
  refine ⟨Γ, gl, .refl Γ, .refl ts _, tied.same ((SameScope.refl c).add i).symbols, ?_⟩
  rw [between, Compiler.size_add]
  exact run

theorem sim_print (sim : SimExpr w fuel) {ending : Datum} :
    Sim w (.stmt (.print e ending line)) [.print e ending line]
      (Eval.stmt (fuel + 1) · (.print e ending line)) := by
  intro k c c' Γ st gl low fr emits fit inside layered begins tied
  have plain := fit.expr (e := e) (by simp [Stmt.exprs])
  have here := Stmt.holds_of_all fit.holds
  simp only [alike, Bool.and_eq_true] at here
  have ends := here.1.2
  simp only [Eval.stmt]
  cases emits with
  | print first =>
    refine outcome_expr sim first plain begins.of_add tied fun {v st₁ gl₁} honest _ tied₁ => ?_
    rcases Eval.print_cases v.datum "" st₁ with ⟨text, shown, done⟩ | stuck
    · rw [done]
      exact passed_add tied₁ (Machine.runs_print begins.fetch shown)
    · exact .of_stuck stuck
  | println other first =>
    obtain rfl : ending = .str "\n" := by
      cases ending with
      | str s =>
        simp only [Stmt.endsPlainly, Bool.or_eq_true, beq_iff_eq] at ends
        rcases ends with rfl | rfl
        · exact absurd rfl other
        · rfl
      | _ => cases ends
    refine outcome_expr sim first plain begins.of_add tied fun {v st₁ gl₁} honest _ tied₁ => ?_
    rcases Eval.print_cases v.datum "\n" st₁ with ⟨text, shown, done⟩ | stuck
    · rw [done]
      exact passed_add tied₁ (Machine.runs_println begins.fetch shown)
    · exact .of_stuck stuck

theorem targetName_bind {target : Expr} (name : target.target? = some x) {f : String → Eval Unit} :
    (Eval.targetName target >>= f) st = f x st := by
  rw [Eval.targetName, name]
  rfl

theorem sim_assign (sim : SimExpr w fuel) {target : Expr} :
    Sim w (.stmt (.assign target e line)) [.assign target e line]
      (Eval.stmt (fuel + 1) · (.assign target e line)) := by
  intro k c c' Γ st gl low fr emits fit inside layered begins tied
  have plain := fit.expr (e := e) (by simp [Stmt.exprs])
  simp only [Eval.stmt]
  cases emits with
  | @assign _ _ _ x _ c₁ _ first name stores =>
    have begins₁ := begins.of_prefix (Compiler.grows_stores stores).code
    have open' : Γ ≠ [] := by
      rintro rfl
      have none := fit.direct rfl _ List.mem_cons_self
      rw [Stmt.sets?, name] at none
      cases none
    refine outcome_expr sim first plain begins₁ tied fun {v st₁ gl₁} honest _ tied₁ => ?_
    rw [targetName_bind name]
    refine passed_stores stores honest open' ?_ begins tied₁
    rw [first.grown.1.varSymbol?]
    exact fit.fresh x (by simp [Stmt.assignedBy, Stmt.assigned, name])

theorem sim_assignLocal (sim : SimExpr w fuel) {target : Expr} :
    Sim w (.stmt (.assignLocal target e line)) [.assignLocal target e line]
      (Eval.stmt (fuel + 1) · (.assignLocal target e line)) := by
  intro k c c' Γ st gl low fr emits fit inside layered begins tied
  have plain := fit.expr (e := e) (by simp [Stmt.exprs])
  have loop := fit.plain _ List.mem_cons_self rfl
  simp only [Eval.stmt]
  cases emits with
  | assignLocal first name =>
    have begins₁ := begins.of_prefix (Compiler.grows_withLocal _ _).code
    refine outcome_expr sim first plain begins₁ tied fun {v st₁ gl₁} honest _ tied₁ => ?_
    rw [targetName_bind name]
    cases Γ with
    | nil => cases loop
    | cons L Γ =>
      have loop : L.loop = false := Option.some.inj loop
      exact passed_hold (.own fun again => absurd (loop.symm.trans again) (by decide)) honest
        begins tied₁

theorem sim_call (call : SimCall w fuel) {es : List Expr} :
    Sim w (.stmt (.call n es line)) [.call n es line]
      (Eval.stmt (fuel + 1) · (.call n es line)) := by
  intro k c c' Γ st gl low fr emits fit inside layered begins tied
  have plain := fit.expr (e := .call n es line) (by simp [Stmt.exprs])
  simp only [Expr.all, Bool.and_eq_true] at plain
  simp only [Eval.stmt]
  cases emits with
  | callStmt first =>
    rcases (Eval.plainExprs fuel).call (top Γ) n es line st with ⟨r, st₁, done⟩ | stuck
    · obtain ⟨v, -, -, gl₁, rooted, keeps, run⟩ :=
        call first plain.2 begins.of_add tied (List.prefix_refl _) done
      have tied₁ := (tied.after keeps rooted).same first.grown.1.symbols
      rw [bind_of_ok done]
      exact (passed_add tied₁ (Machine.runs_pop begins.fetch)).after (.refl Γ)
        (keeps.mono (by simp))
        run
    · exact .of_stuck (Eval.bind_stuck stuck)

theorem sim_ret (sim : SimExpr w fuel) :
    Sim w (.stmt (.ret e line)) [.ret e line] (Eval.stmt (fuel + 1) · (.ret e line)) := by
  intro k c c' Γ st gl low fr emits fit inside layered begins tied
  have plain := fit.expr (e := e) (by simp [Stmt.exprs])
  have here := Stmt.holds_of_all fit.holds
  simp only [alike, Bool.and_eq_true] at here
  obtain rfl : k = true := by
    simpa [Compiler.inner, Stmt.isFunc, Stmt.isRet] using here.1.1.1.1
  simp only [Eval.stmt]
  cases emits with
  | ret first =>
    rcases (Eval.plainExprs fuel).expr (top Γ) e st with ⟨r, st₁, done⟩ | stuck
    · obtain ⟨v, rfl, honest, gl₁, rooted, keeps, run⟩ :=
        sim first plain begins.of_add tied (List.prefix_refl _) done
      rw [bind_of_ok done]
      cases fr with
      | nil => exact absurd rfl (inside rfl)
      | cons frame rest =>
        exact ⟨v, rfl, frame, rest, gl₁, rfl, honest, keeps.mono (by simp), rooted,
          run.trans (Machine.runs_leave begins.fetch tied.base)⟩
    · exact .of_stuck (Eval.bind_stuck stuck)

end ScriptLang.Simulation
