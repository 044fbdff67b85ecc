import ScriptLang.Proofs.Simulation.Blocks

/-!
Calls on both engines, and with them everything inside a statement at top level.

The cells of the arguments become those of the parameters, above all that the caller has on the
stack. The scope of the call lies in the outermost scope, so the called function sees globals and
parameters only, just as the compiler has compiled it.
-/

namespace ScriptLang.Simulation

open Compiler (lastIndexed? Emits Begins SameSymbols Layered Grows)
open Machine (Runs Config)

variable {w : World} {c c₁ c' : Compiler} {L : Layer} {f : Forest Value Closure} {clo : Closure}
  {gl : List (Slot × Cell)} {low s : Array Cell} {fr : List Frame} {fuel : Nat} {out : String}
  {ps : List Param} {vs : List Value}

/-! ### Parameters -/

theorem runs_params (ps : List Param) (begins : (c.withParams ps).Begins w.code) :
    Runs w.code w.labels ⟨c.code.size, s, fr, gl, out⟩
      ⟨(c.withParams ps).code.size, s, fr, gl, out⟩ := by
  induction ps generalizing c with
  | nil => exact .refl _
  | cons p ps ih =>
    have here : (c.withLocal p.name).Begins w.code :=
      begins.of_prefix (Compiler.grows_withParams (c.withLocal p.name) ps).code
    have first : Runs w.code w.labels ⟨c.code.size, s, fr, gl, out⟩ _ :=
      Machine.runs_setSlot here.fetch
    have rest := ih begins
    rw [Compiler.withLocal, Compiler.size_add] at rest
    exact first.trans rest

/-- The evaluator binds parameters where the compiler makes locals of them. -/
theorem bound_params (out : String) (length : vs.length = ps.length) (honest : ∀ v ∈ vs, v.Honest)
    (tied : Tied w c [L] f gl low fr) (loop : L.loop = false) :
    ∃ f' L', Eval.bindParams L.scope ps (vs.map some) ⟨f, out⟩ = .ok () ⟨f', out⟩ ∧
      L'.scope = L.scope ∧ L'.loop = false ∧ pile L'.vars = pile L.vars ++ cells vs ∧
      Keeps [L.scope] f f' ∧ Tied w (c.withParams ps) [L'] f' gl low fr := by
  induction ps generalizing c L f vs with
  | nil =>
    obtain rfl : vs = [] := List.length_eq_zero_iff.mp length
    exact ⟨f, L, rfl, rfl, loop, by simp [cells], .refl _ f, tied⟩
  | cons p ps ih =>
    cases vs with
    | nil => cases length
    | cons v vs =>
      obtain ⟨first, others⟩ := List.forall_mem_cons.mp honest
      obtain ⟨keeps, tied₁⟩ := tied.hold (x := p.name)
        (.own fun again => absurd (loop.symm.trans again) (by decide)) first
      obtain ⟨f', L', bound, scope, loop', cells', keeps', tied'⟩ :=
        ih (Nat.succ.inj length) others tied₁ loop
      refine ⟨f', L', bound, scope, loop', ?_, keeps.trans keeps', tied'⟩
      rw [cells', pile]
      simp [cells]

/-! ### Bodies -/

theorem names_withParams (c : Compiler) (ps : List Param) :
    (c.withParams ps).locals.toList.map (·.name) =
      c.locals.toList.map (·.name) ++ ps.map Param.name := by
  induction ps generalizing c with
  | nil => simp [Compiler.withParams]
  | cons p ps ih =>
    rw [Compiler.withParams, ih]
    simp [Compiler.withLocal, Compiler.add]

/-- Where the body of a function begins. -/
def FuncCode.start (c : Compiler) (clo : Closure) : Compiler :=
  (c.funcStart clo.name clo.params.length).opened.withParams clo.params

theorem FuncCode.layered (code : FuncCode w clo c c') : Layered (FuncCode.start c clo) := by
  have layered := (Compiler.grows_funcStart c clo.name clo.params.length).layered code.top.layered
  exact (Compiler.grows_withParams _ clo.params).layered layered.opened

theorem FuncCode.grown (code : FuncCode w clo c c') : Grows (FuncCode.start c clo) c' :=
  code.emits.grown code.layered

theorem FuncCode.body (code : FuncCode w clo c c') : c'.Begins w.code :=
  code.begins.of_add.of_add.of_prefix (Compiler.prefix_closed c')

/-- What is known at the start of a function. -/
theorem FuncCode.context (code : FuncCode w clo c c') :
    Context w (c.funcStart clo.name clo.params.length) [] := by
  refine ⟨?_, ⟨code.placed.locals, code.placed.globals⟩, code.globals, code.functions, nofun⟩
  change c.locals.toList.map (·.name) = _
  rw [code.top.locals]
  rfl

/-- The names that a function assigns to are settled. -/
theorem FuncCode.fit (ok : w.Ok) (code : FuncCode w clo c c') :
    Fit w true (FuncCode.start c clo) (some false) clo.body.stmts := by
  refine ⟨code.alike, fun _ _ _ => rfl, nofun, ?_⟩
  intro n mem absent
  rw [← Block.assigned_eq] at mem
  obtain ⟨own, global⟩ := Compiler.varSymbol?_eq_none.mp absent
  have deep : (c.funcStart clo.name clo.params.length).opened.depth ≠ 0 := by
    change c.depth + 1 ≠ 0
    rw [code.top.depth]
    decide
  have globals := (Compiler.grows_withParams _ clo.params).inner deep
  have param : n ∉ clo.params.map Param.name := by
    intro param
    have mem : n ∈ (FuncCode.start c clo).locals.toList.map (·.name) := by
      rw [FuncCode.start, names_withParams]
      exact List.mem_append_right _ param
    obtain ⟨s, mem, name⟩ := List.mem_map.mp mem
    exact Compiler.lastIndexed?_eq_none.mp own s (Array.mem_toList_iff.mp mem) name
  have notTop := code.settled n mem param (globals ▸ global)
  cases known : lastIndexed? w.globals n with
  | none => rfl
  | some p => exact absurd (ok.top (by rw [known]; nofun)) notTop

/-- From the entry of a function to its body. -/
theorem FuncCode.enter (code : FuncCode w clo c c') (out : String) (rooted : Rooted w f gl)
    (base : Machine.BaseOf fr low.size) (length : vs.length = clo.params.length)
    (honest : ∀ v ∈ vs, v.Honest) :
    ∃ f' L, Eval.bindParams f.scopes.size clo.params (vs.map some) ⟨(f.child 0).2, out⟩ =
        .ok () ⟨f', out⟩ ∧
      L.scope = f.scopes.size ∧ L.loop = false ∧ Keeps [f.scopes.size] f f' ∧
      Tied w (FuncCode.start c clo) [L] f' gl low fr ∧
      Runs w.code w.labels ⟨c.code.size + 1, low ++ cells vs, fr, gl, out⟩
        (between (FuncCode.start c clo) [L] low fr gl out) := by
  have layered := (Compiler.grows_funcStart c clo.name clo.params.length).layered code.top.layered
  obtain ⟨f', L, bound, scope, loop, stack, keeps, tied⟩ :=
    bound_params out length honest (Tied.enter ⟨code.context, trivial, rooted, base⟩ layered) rfl
  refine ⟨f', L, bound, scope, loop, (keeps_child f 0 rooted.around).trans keeps, tied, ?_⟩
  have stack' : pile (flat [L]) = cells vs := by
    rw [flat_cons, show L.vars ++ flat [] = L.vars from List.append_nil _, stack]
    simp [pile]
  have start : Runs w.code w.labels ⟨c.code.size + 1, low ++ cells vs, fr, gl, out⟩
      ⟨c.code.size + 1 + 1, low ++ cells vs, fr, gl, out⟩ :=
    Machine.runs_label
      (Compiler.fetch_entry (Compiler.begins_funcStart code.top code.emits code.body))
  have params : Runs w.code w.labels ⟨_, low ++ cells vs, fr, gl, out⟩ _ :=
    runs_params clo.params (code.body.of_prefix code.grown.code)
  rw [between, stack']
  have size : (c.funcStart clo.name clo.params.length).opened.code.size = c.code.size + 1 + 1 := by
    change (c.funcStart clo.name clo.params.length).code.size = _
    rw [Compiler.funcStart, Compiler.size_add, Compiler.size_add]
    rfl
  rw [size] at params
  exact start.trans params

/-- A body that comes to its end returns nothing. -/
theorem FuncCode.leave (code : FuncCode w clo c c') {frame : Frame}
    (base : frame.base = .int low.size) :
    Runs w.code w.labels (between c'.closed [] low (frame :: fr) gl out)
      ⟨frame.back, low.push (.value .nothing), fr, gl, out⟩ := by
  have fetch := code.begins.fetch
  rw [Compiler.size_add] at fetch
  exact (Machine.runs_push code.begins.of_add.fetch).trans (Machine.runs_leave fetch base)

/-- What a call returns once its body is done. -/
theorem FuncCode.returns (code : FuncCode w clo c c') {frame : Frame}
    (base : frame.base = .int low.size) {ts : List Nat} {a : Config} {x : Eval Unit}
    {st st' : Store} {r : Option Value}
    (outcome : Outcome w c' ts [L] low (frame :: fr) f a (x st))
    (done : Eval.returning x st = .ok r st') :
    ∃ v, r = some v ∧ v.Honest ∧ ∃ gl', Rooted w st'.forest gl' ∧ Keeps ts f st'.forest ∧
      Runs w.code w.labels a ⟨frame.back, low.push (.value v), fr, gl', st'.output⟩ := by
  have closed := outcome.close code.context (Compiler.func_scope code.top.layered code.emits)
    code.begins.of_add.of_add
  unfold Eval.returning at done
  match result : x st with
  | .ok _ st₁ =>
    rw [result] at done closed
    cases done
    obtain ⟨Γ', gl', grown, keeps, tied, run⟩ := closed
    obtain rfl : Γ' = [] := List.map_eq_nil_iff.mp grown.frames
    exact ⟨.nothing, rfl, Value.honest_number _, gl', tied.rooted, keeps,
      run.trans (code.leave base)⟩
  | .error (.ret o) st₁ =>
    rw [result] at done closed
    cases done
    obtain ⟨v, eq, _, _, gl', frames, honest, keeps, rooted, run⟩ := closed
    cases frames
    exact ⟨v, eq, honest, gl', rooted, keeps, run⟩
  | .error (.failure _) _ | .error .outOfFuel _ =>
    rw [result] at done
    cases done

/-! ### Calls -/

theorem simCall_succ (ok : w.Ok) (exprs : SimExprs w fuel) (block : SimBlock w fuel) :
    SimCall w (fuel + 1) := by
  intro n es line c c' Γ st st' r gl low fr s emits plain begins tied covers done
  cases emits with
  | @call _ _ _ f _ c₁ known arity args =>
    obtain ⟨mem, rfl⟩ := Compiler.funcSymbol?_some known
    obtain ⟨clo, found, params⟩ := tied.context.functions f mem
    obtain ⟨name, d, d', code⟩ := ok.funcs found
    have same : es.length = clo.params.length := arity.symm.trans params.symm
    rw [Eval.call, get_bind, tied.getFunc_eq, found] at done
    simp only [Option.join_some, bne_iff_ne, same, ne_eq, not_true_eq_false, if_false] at done
    obtain ⟨rs, st₁, first, done⟩ := bind_eq_ok.mp done
    obtain ⟨vs, gl₁, rfl, length, honest, rooted, keeps, run⟩ :=
      exprs args plain begins.of_add.of_add tied covers first
    rw [Eval.childScope_bind, code.scope] at done
    -- The frame of the call: the callee begins above all that is on the stack of the caller.
    have base : Machine.BaseOf (⟨f.name, c₁.code.size + 1 + 1, .int s.size⟩ :: fr) s.size := rfl
    obtain ⟨f₂, L, bound, scope, loop, keeps₂, tied₂, entered⟩ :=
      code.enter st₁.output rooted base (length.trans same) honest
    rw [bind_of_ok bound, ← scope] at done
    have tied' : Tied w (FuncCode.start d clo) [L] (Store.mk f₂ st₁.output).forest gl₁ s _ :=
      tied₂
    have fit : Fit w true (FuncCode.start d clo) (kind [L]) clo.body.stmts := by
      rw [kind, List.head?_cons, Option.map_some, loop]
      exact code.fit ok
    have body := block clo.body code.emits fit (fun _ => List.cons_ne_nil _ _) code.layered
      code.body tied'
    obtain ⟨v, rfl, honest', gl', rooted', keeps', run'⟩ := code.returns base body done
    refine ⟨v, rfl, honest', gl', rooted', ?_, ?_⟩
    · have inside : Keeps [L.scope] st₁.forest st'.forest := (scope ▸ keeps₂).trans keeps'
      refine keeps.trans (inside.mono fun i mem lt => ?_)
      rw [List.mem_singleton.mp mem, scope] at lt
      exact absurd lt (Nat.lt_irrefl _)
    · have fetch := begins.fetch
      have label := ok.located (Compiler.fetch_entry
        (Compiler.begins_funcStart code.top code.emits code.body))
      rw [name] at label
      rw [Compiler.size_add] at fetch
      rw [Compiler.size_add, Compiler.size_add]
      have count : (cells vs).size = es.length := by simp [cells, length]
      have pushed := run.trans (Machine.runs_push begins.of_add.fetch)
      rw [← count] at pushed
      exact ((pushed.trans (Machine.runs_enter fetch label)).trans entered).trans run'

/-! ### All evaluations -/

/-- Everything is executed alike with some fuel. -/
structure Sims (w : World) (fuel : Nat) : Prop where
  expr : SimExpr w fuel
  exprs : SimExprs w fuel
  call : SimCall w fuel
  stmt : SimStmt w fuel
  stmts : SimStmts w fuel
  block : SimBlock w fuel
  rounds : SimRounds w fuel

theorem sims_zero (w : World) : Sims w 0 := by
  refine ⟨?_, ?_, ?_, ?_, ?_, ?_, ?_⟩
  · intro e c c' Γ st st' r gl low fr s _ _ _ _ _ done
    rw [Eval.expr] at done
    cases done
  · intro es c c' Γ st st' rs gl low fr s _ _ _ _ _ done
    rw [Eval.exprs] at done
    cases done
  · intro n es line c c' Γ st st' r gl low fr s _ _ _ _ _ done
    rw [Eval.call] at done
    cases done
  · intro s k c c' Γ st gl low fr _ _ _ _ _ _
    simp only [Eval.stmt]
    trivial
  · intro ss k c c' Γ st gl low fr _ _ _ _ _ _
    simp only [Eval.stmts]
    trivial
  · intro b k c c' Γ st gl low fr _ _ _ _ _ _
    simp only [Eval.block]
    trivial
  · intro line k test b c c₁ c₂ Γ inner st gl low fr _ _ _ _ _ _ _ _ _
    rw [Eval.rounds]
    trivial

/-- The evaluator and the machine do the same, however long the evaluator takes. -/
theorem sims (ok : w.Ok) (fuel : Nat) : Sims w fuel := by
  induction fuel with
  | zero => exact sims_zero w
  | succ fuel ih =>
    exact ⟨simExpr_succ ih.expr ih.call, simExprs_succ ih.expr ih.exprs,
      simCall_succ ok ih.exprs ih.block,
      simStmt_succ ok.located ih.expr ih.call ih.block ih.rounds,
      simStmts_succ ih.stmt ih.stmts, simBlock_succ ih.stmts,
      simRounds_succ ok.located ih.expr ih.block ih.rounds⟩

end ScriptLang.Simulation
