import ScriptLang.Proofs.Simulation.Call

/-!
Statements at top level on both engines.

At top level the world grows: an assignment may make a global, a declaration makes a function. After
each statement both engines agree on a world that has all that is declared so far (`OnTop`).
-/

namespace ScriptLang.Simulation

open Compiler (lastIndexed? Emits Begins SameSymbols AtTop)
open Machine (Runs Config Located putGlobal)

variable {code : Array Instr} {labels : Labels} {Top : String → Prop} {c c₁ c' : Compiler}
  {before : List String} {funcs : Table (Option Closure)} {f f' : Forest Value Closure}
  {gl gl' : List (Slot × Cell)} {s : Stmt} {ss : List Stmt} {st st' : Store} {fuel : Nat}
  {out x : String} {v : Value} {b : Block} {e target : Expr} {line : Line} {ps : List Param}

/-- The world in a state of the compiler. -/
def stage (code : Array Instr) (labels : Labels) (Top : String → Prop) (c : Compiler)
    (funcs : Table (Option Closure)) : World :=
  ⟨code, labels, c.globals, funcs, Top⟩

/-- Both engines between two statements at top level. -/
structure OnTop (code : Array Instr) (labels : Labels) (Top : String → Prop) (c : Compiler)
    (before : List String) (funcs : Table (Option Closure)) (f : Forest Value Closure)
    (gl : List (Slot × Cell)) : Prop where
  ok : (stage code labels Top c funcs).Ok
  tied : Tied (stage code labels Top c funcs) c [] f gl #[] []
  top : AtTop c
  /-- Each global has one symbol. -/
  single : ∀ {i s}, c.globals[i]? = some s → lastIndexed? c.globals s.name = some (s, i)
  declared : ∀ {n}, funcs.lookup? n ≠ none → ∃ s ∈ c.functions, s.name = n
  /-- What has been assigned at top level is a global. -/
  before : ∀ n ∈ before, lastIndexed? c.globals n ≠ none

theorem OnTop.same (on : OnTop code labels Top c before funcs f gl) (same : SameSymbols c c') :
    OnTop code labels Top c' before funcs f gl := by
  have stages : stage code labels Top c' funcs = stage code labels Top c funcs := by
    rw [stage, stage, same.globals]
  refine ⟨stages ▸ on.ok, stages ▸ on.tied.same same, ?_, ?_, ?_, ?_⟩
  · exact ⟨same.layered on.top.layered, same.depth.trans on.top.depth,
      same.locals.trans on.top.locals⟩
  · rw [same.globals]
    exact on.single
  · rw [same.functions]
    exact on.declared
  · rw [same.globals]
    exact on.before

theorem OnTop.after (on : OnTop code labels Top c before funcs f gl)
    (tied : Tied (stage code labels Top c funcs) c [] f' gl' #[] []) :
    OnTop code labels Top c before funcs f' gl' :=
  { on with tied }

/-- What has passed at top level has changed globals only. -/
theorem OnTop.passed (on : OnTop code labels Top c before funcs f gl) (same : SameSymbols c c')
    {ts : List Nat} {a : Config}
    (passed : Passed (stage code labels Top c funcs) c' ts [] #[] [] f a st') :
    ∃ gl', OnTop code labels Top c' before funcs st'.forest gl' ∧
      Runs code labels a (between c' [] #[] [] gl' st'.output) := by
  obtain ⟨Γ', gl', grown, -, tied, run⟩ := passed
  obtain rfl : Γ' = [] := List.map_eq_nil_iff.mp grown.frames
  exact ⟨gl', (on.after (tied.same same.symm)).same same, run⟩

/-! ### Statements that declare nothing -/

theorem OnTop.inner (on : OnTop code labels Top c before funcs f gl) (emits : Emits (.stmt s) c c')
    (all : s.all (alike false) = true) (plain : s.isLocal = false) (none : s.sets? = none)
    (begins : c'.Begins code) (done : Eval.stmt fuel 0 s ⟨f, out⟩ = .ok () st') :
    ∃ gl', OnTop code labels Top c' before funcs st'.forest gl' ∧
      Runs code labels (between c [] #[] [] gl out) (between c' [] #[] [] gl' st'.output) := by
  have fit : Fit (stage code labels Top c funcs) false c (kind []) [s] := by
    refine ⟨by rw [Stmt.allOf, all]; rfl, ?_, ?_, fun n _ absent => ?_⟩
    · intro s' mem
      rw [List.mem_singleton.mp mem, plain]
      simp
    · intro _ s' mem
      rw [List.mem_singleton.mp mem]
      exact none
    · exact (Compiler.varSymbol?_eq_none.mp absent).2
  have notFunc : s.isFunc = false := by
    have here := Stmt.holds_of_all all
    simp only [alike, Compiler.inner, Bool.and_eq_true, Bool.not_eq_true'] at here
    exact here.1.1.1.1.1
  have kept := emits.kept on.top.layered
  have same : SameSymbols c c' := ⟨kept.locals on.top.depth plain, kept.globals none,
    kept.functions notFunc, (emits.grown on.top.layered).depth⟩
  have tied : Tied (stage code labels Top c funcs) c [] (Store.mk f out).forest gl #[] [] := on.tied
  have outcome : Outcome _ c' [] [] #[] [] f _ (Eval.stmt fuel 0 s ⟨f, out⟩) :=
    (sims on.ok fuel).stmt s emits fit (by simp) on.top.layered begins tied
  rw [done] at outcome
  exact on.passed same outcome

/-! ### Assignments -/

/-- At top level there is just the outermost scope to assign in. -/
theorem Tied.setVar_top {w : World} {low : Array Cell} {fr : List Frame}
    (tied : Tied w c [] f gl low fr) (x : String) (o : Option Value) :
    f.setVar 0 x o = f.setLocal 0 x o := by
  have home : f.holder? 0 x = homeIn f [0] x := tied.holder?_eq x
  rw [Forest.setVar, home]
  cases found : homeIn f [0] x with
  | none => rfl
  | some h =>
    rw [List.mem_singleton.mp (homeIn_mem found).1]
    rfl

/-- A new global. -/
theorem OnTop.new_global (on : OnTop code labels Top c before funcs f gl)
    (absent : c.varSymbol? x = none) (listed : Top x) (honest : v.Honest) :
    OnTop code labels Top (c.withGlobal x) (before ++ [x]) funcs (f.setLocal 0 x (some v))
      (putGlobal (.index c.globals.size) (.value v) gl) := by
  obtain ⟨-, unknown⟩ := Compiler.varSymbol?_eq_none.mp absent
  have more : ∀ {n p}, lastIndexed? c.globals n = some p →
      lastIndexed? (c.withGlobal x).globals n = some p := by
    intro n p found
    change lastIndexed? (c.globals.push _) n = _
    rw [Compiler.lastIndexed?_push, if_neg, found]
    rintro rfl
    rw [unknown] at found
    cases found
  have rooted := on.tied.rooted.new_global ⟨x, false, c.depth, 0⟩ honest
  have grown := Compiler.grows_withGlobal (x := x) on.top.depth
  obtain ⟨names, placed, -, functions, -⟩ := on.tied.context
  refine ⟨⟨on.ok.located, ?_, ?_⟩, ⟨⟨names, ⟨placed.locals, ?_⟩, id, functions, by simp⟩, trivial,
    rooted, rfl⟩, ?_, ?_, on.declared, ?_⟩
  · intro n clo found
    obtain ⟨name, d, d', code⟩ := on.ok.funcs found
    exact ⟨name, d, d', code.extend more id⟩
  · intro n known
    change lastIndexed? (c.globals.push _) n ≠ none at known
    rw [Compiler.lastIndexed?_push] at known
    split at known
    · rename_i same
      exact same ▸ listed
    · exact on.ok.top known
  · intro s mem
    rcases Array.mem_push.mp mem with mem | rfl
    · exact placed.globals s mem
    · exact on.top.depth
  · exact ⟨grown.layered on.top.layered, on.top.depth, on.top.locals⟩
  · intro i s found
    change (c.globals.push _)[i]? = some s at found
    rw [Array.getElem?_push] at found
    split at found
    · rename_i last
      cases found
      change lastIndexed? (c.globals.push _) x = _
      rw [Compiler.lastIndexed?_push, if_pos rfl, last]
    · exact more (on.single found)
  · intro n mem
    change lastIndexed? (c.globals.push _) n ≠ none
    rw [Compiler.lastIndexed?_push]
    split
    · exact Option.some_ne_none _
    · rename_i other
      rcases List.mem_append.mp mem with mem | mem
      · exact on.before n mem
      · exact absurd (List.mem_singleton.mp mem).symm other

/-- The name that has been assigned to is a global. -/
theorem OnTop.assigned (on : OnTop code labels Top c before funcs f gl)
    (known : lastIndexed? c.globals x ≠ none) :
    OnTop code labels Top c (before ++ [x]) funcs f gl := by
  refine { on with before := fun n mem => ?_ }
  rcases List.mem_append.mp mem with mem | mem
  · exact on.before n mem
  · rw [List.mem_singleton.mp mem]
    exact known

theorem OnTop.assign (on : OnTop code labels Top c before funcs f gl)
    (emits : Emits (.stmt (.assign target e line)) c c')
    (plain : e.all (fun e => !e.isLogical) = true) (name : target.target? = some x) (listed : Top x)
    (begins : c'.Begins code)
    (done : Eval.stmt fuel 0 (.assign target e line) ⟨f, out⟩ = .ok () st') :
    ∃ gl', OnTop code labels Top c' (before ++ [x]) funcs st'.forest gl' ∧
      Runs code labels (between c [] #[] [] gl out) (between c' [] #[] [] gl' st'.output) := by
  cases fuel with
  | zero =>
    rw [Eval.stmt] at done
    cases done
  | succ fuel =>
    rw [Eval.stmt] at done
    obtain ⟨v, st₁, first, done⟩ := Eval.demand_bind_eq_ok.mp done
    rw [targetName_bind name] at done
    cases done
    cases emits with
    | @assign _ _ _ y _ c₁ _ value name' stores =>
      obtain rfl : y = x := Option.some.inj (name'.symm.trans name)
      have tied : Tied (stage code labels Top c funcs) c [] (Store.mk f out).forest gl #[] [] :=
        on.tied
      obtain ⟨_, ⟨⟩, honest, gl₁, rooted, keeps, run⟩ := (sims on.ok fuel).expr value plain
        (begins.of_prefix (Compiler.grows_stores stores).code) tied (List.prefix_refl _) first
      have on₁ := (on.after (tied.after keeps rooted)).same value.grown.1.symbols
      cases stores with
      | newGlobal absent =>
        refine ⟨putGlobal (.index c₁.globals.size) (.value v) gl₁, ?_, run.trans ?_⟩
        · dsimp only
          rw [on₁.tied.setVar_top]
          exact on₁.new_global absent listed honest
        · rw [between, Compiler.withGlobal, Compiler.size_add]
          exact Machine.runs_storeGlobal begins.fetch
      | newLocal _ deep => exact absurd on₁.top.depth deep
      | global known depth =>
        rcases on₁.tied.context.known known with ⟨deep, -⟩ | ⟨-, none, known⟩
        · exact absurd depth deep
        · have passed : Passed _ _ [] [] #[] [] _ _ _ :=
            passed_global none known honest begins on₁.tied
          obtain ⟨gl', on', run'⟩ :=
            on₁.passed ((Compiler.SameScope.refl c₁).add _).symbols passed
          refine ⟨gl', on'.assigned ?_, run.trans run'⟩
          change lastIndexed? c₁.globals y ≠ _
          rw [known]
          exact Option.some_ne_none _
      | loc known deep =>
        rcases on₁.tied.context.known known with ⟨-, y, sought⟩ | ⟨depth, -⟩
        · cases sought
        · exact absurd depth deep

/-! ### Declarations -/

section
variable {name : String}

/-- The functions that were there keep their meaning under a new name. -/
theorem OnTop.keeps_declared (on : OnTop code labels Top c before funcs f gl)
    (new : c.funcSymbol? name = none) (clo : Option Closure) {g : Symbol}
    (known : Declared (stage code labels Top c funcs) g) :
    Declared { stage code labels Top c funcs with funcs := funcs.put name clo } g := by
  obtain ⟨old, found, arity⟩ := known
  change funcs.lookup? g.name = _ at found
  refine ⟨old, ?_, arity⟩
  change (funcs.put name clo).lookup? g.name = _
  rw [Table.lookup?_put, if_neg, found]
  rintro rfl
  obtain ⟨s, mem, same⟩ := on.declared (n := g.name) (by rw [found]; exact Option.some_ne_none _)
  exact Compiler.funcSymbol?_eq_none.mp new s mem same

theorem OnTop.declare (on : OnTop code labels Top c before funcs f gl)
    (new : c.funcSymbol? name = none)
    (body : Emits (.stmts b.stmts) ((c.funcStart name ps.length).opened.withParams ps) c₁)
    (begins : c₁.closed.funcEnd.Begins code) (all : Stmt.allOf (alike true) b.stmts = true)
    (settled : ∀ n ∈ b.assigned, n ∉ ps.map Param.name → n ∉ before → ¬ Top n) :
    OnTop code labels Top (c.declared name ps.length) before
      (funcs.put name (some ⟨name, ps, b, 0⟩)) (f.setFunc 0 name (some ⟨name, ps, b, 0⟩)) gl := by
  have keep : ∀ {g}, Declared _ g → Declared _ g :=
    on.keeps_declared new (some ⟨name, ps, b, 0⟩)
  obtain ⟨names, placed, globals, functions, -⟩ := on.tied.context
  have functions' : ∀ g ∈ (c.declared name ps.length).functions,
      Declared (stage code labels Top c (funcs.put name (some ⟨name, ps, b, 0⟩))) g := by
    intro g mem
    rcases Array.mem_push.mp mem with mem | rfl
    · exact keep (functions g mem)
    · refine ⟨⟨name, ps, b, 0⟩, ?_, rfl⟩
      change (funcs.put name _).lookup? name = _
      rw [Table.lookup?_put, if_pos rfl]
  refine ⟨⟨on.ok.located, ?_, on.ok.top⟩, ⟨⟨names, ⟨placed.locals, placed.globals⟩, globals,
    functions', by simp⟩, trivial, on.tied.rooted.declare name _, rfl⟩, ?_, on.single, ?_,
    on.before⟩
  · intro n clo found
    change (funcs.put name _).lookup? n = _ at found
    rw [Table.lookup?_put] at found
    split at found
    · rename_i same
      cases found
      refine ⟨same, c, c₁, ⟨rfl, on.top, body, begins, placed, globals, functions', all, ?_⟩⟩
      intro n' mem param unknown
      exact settled n' mem param fun earlier => on.before n' earlier unknown
    · obtain ⟨same, d, d', code'⟩ := on.ok.funcs found
      exact ⟨same, d, d', code'.extend id keep⟩
  · exact ⟨(Compiler.grows_declared c name ps.length).layered on.top.layered, on.top.depth,
      on.top.locals⟩
  · intro n known
    change ∃ s ∈ c.functions.push _, s.name = n
    rw [Table.lookup?_put] at known
    split at known
    · rename_i same
      exact ⟨_, Array.mem_push_self, same⟩
    · obtain ⟨s, mem, same⟩ := on.declared known
      exact ⟨s, Array.mem_push_of_mem _ mem, same⟩

/-- A declaration is jumped over. -/
theorem OnTop.func (on : OnTop code labels Top c before funcs f gl)
    (emits : Emits (.stmt (.func name ps b line)) c c')
    (all : Stmt.allOf (alike true) b.stmts = true)
    (settled : ∀ n ∈ b.assigned, n ∉ ps.map Param.name → n ∉ before → ¬ Top n)
    (begins : c'.Begins code)
    (done : Eval.stmt fuel 0 (.func name ps b line) ⟨f, out⟩ = .ok () st') :
    ∃ funcs', OnTop code labels Top c' before funcs' st'.forest gl ∧
      Runs code labels (between c [] #[] [] gl out) (between c' [] #[] [] gl st'.output) := by
  cases fuel with
  | zero =>
    rw [Eval.stmt] at done
    cases done
  | succ fuel =>
    rw [Eval.stmt] at done
    cases done
    cases emits with
    | @func _ _ _ _ _ c₁ new _ body =>
      have start := Compiler.begins_funcStart on.top body
        (begins.of_add.of_add.of_add.of_prefix (Compiler.prefix_closed c₁))
      have declared := on.declare new body begins.of_add all settled
      have same := (Compiler.funcStart_scope c name ps.length).trans
        (Compiler.func_scope on.top.layered body)
      refine ⟨_, declared.same (same.trans ⟨rfl, rfl, rfl, rfl⟩), ?_⟩
      exact (runs_jump_to on.ok.located start.of_add begins).trans (runs_to_label begins)

end

/-! ### Programs -/

/-- A statement that both engines execute alike at top level. -/
def alikeTop (s : Stmt) : Bool :=
  !s.isLocal && if s.isFunc then s.allInside (alike true) else s.all (alike false)

theorem OnTop.stmt {tops : List String} (on : OnTop code labels (· ∈ tops) c before funcs f gl)
    (emits : Emits (.stmt s) c c') (fits : alikeTop s = true)
    (listed : ∀ x ∈ s.sets?, x ∈ tops) (settled : s.settledIn tops before = true)
    (begins : c'.Begins code) (done : Eval.stmt fuel 0 s ⟨f, out⟩ = .ok () st') :
    ∃ funcs' gl', OnTop code labels (· ∈ tops) c' (before ++ s.sets?.toList) funcs' st'.forest gl' ∧
      Runs code labels (between c [] #[] [] gl out) (between c' [] #[] [] gl' st'.output) := by
  rw [alikeTop, Bool.and_eq_true, Bool.not_eq_true'] at fits
  obtain ⟨plain, fits⟩ := fits
  -- All but declarations and assignments leave the world as it is.
  have other : s.isFunc = false → s.sets? = none → ∃ funcs' gl',
      OnTop code labels (· ∈ tops) c' (before ++ s.sets?.toList) funcs' st'.forest gl' ∧
        Runs code labels (between c [] #[] [] gl out) (between c' [] #[] [] gl' st'.output) := by
    intro notFunc none
    rw [notFunc, if_neg Bool.false_ne_true] at fits
    rw [none, Option.toList_none, List.append_nil]
    exact ⟨funcs, on.inner emits fits plain none begins done⟩
  cases s with
  | func name ps b line =>
    simp only [Stmt.isFunc, if_true, Stmt.allInside, Block.all_eq] at fits
    rw [Stmt.settledIn, List.all_eq_true] at settled
    have settled' : ∀ n ∈ b.assigned, n ∉ ps.map Param.name → n ∉ before → n ∉ tops := by
      intro n mem param early
      have known := settled n mem
      simp only [Bool.or_eq_true, Bool.not_eq_true', List.contains_eq_mem, decide_eq_true_eq,
        decide_eq_false_iff_not] at known
      rcases known with (known | known) | known
      · exact known
      · exact absurd known param
      · exact absurd known early
    obtain ⟨funcs', on', run⟩ := on.func emits fits settled' begins done
    have same : before ++ (Stmt.func name ps b line).sets?.toList = before := List.append_nil _
    rw [same]
    exact ⟨funcs', gl, on', run⟩
  | assign target e line =>
    obtain ⟨x, name⟩ : ∃ x, target.target? = some x := by
      cases emits with
      | assign _ name => exact ⟨_, name⟩
    simp only [Stmt.isFunc, Bool.false_eq_true, if_false] at fits
    have here := Stmt.holds_of_all fits
    simp only [alike, Bool.and_eq_true, Stmt.exprsAll, Stmt.exprs, List.all_cons] at here
    rw [Stmt.sets?, name] at listed ⊢
    exact ⟨funcs, on.assign emits here.1.1.2.2.1 name (listed x rfl) begins done⟩
  | print | assignLocal | branch | loop | count | call | ret => exact other rfl rfl

theorem OnTop.stmts {tops : List String} (on : OnTop code labels (· ∈ tops) c before funcs f gl)
    (emits : Emits (.stmts ss) c c') (fits : ss.all alikeTop = true)
    (listed : ∀ x ∈ ss.filterMap Stmt.sets?, x ∈ tops)
    (settled : Stmt.settledBy tops before ss = true) (begins : c'.Begins code)
    (done : Eval.stmts fuel 0 ss ⟨f, out⟩ = .ok () st') :
    ∃ before' funcs' gl', OnTop code labels (· ∈ tops) c' before' funcs' st'.forest gl' ∧
      Runs code labels (between c [] #[] [] gl out) (between c' [] #[] [] gl' st'.output) := by
  induction ss generalizing c before funcs f gl fuel out with
  | nil =>
    cases emits
    cases fuel with
    | zero =>
      rw [Eval.stmts] at done
      cases done
    | succ fuel =>
      rw [Eval.stmts] at done
      cases done
      exact ⟨before, funcs, gl, on, .refl _⟩
  | cons s ss ih =>
    rw [List.all_cons, Bool.and_eq_true] at fits
    rw [Stmt.settledBy, Bool.and_eq_true] at settled
    cases fuel with
    | zero =>
      rw [Eval.stmts] at done
      cases done
    | succ fuel =>
      rw [Eval.stmts] at done
      obtain ⟨_, st₁, first, later⟩ := bind_eq_ok.mp done
      cases emits with
      | @moreStmts _ _ _ c₁ _ emits rest =>
        have layered := (emits.grown on.top.layered).layered on.top.layered
        have listed₁ : ∀ x ∈ s.sets?, x ∈ tops := fun x mem =>
          listed x (List.mem_filterMap.mpr ⟨s, List.mem_cons_self, mem⟩)
        have listed₂ : ∀ x ∈ ss.filterMap Stmt.sets?, x ∈ tops := by
          intro x mem
          obtain ⟨s', mem, sets⟩ := List.mem_filterMap.mp mem
          exact listed x (List.mem_filterMap.mpr ⟨s', List.mem_cons_of_mem _ mem, sets⟩)
        obtain ⟨funcs₁, gl₁, on₁, run₁⟩ := on.stmt emits fits.1 listed₁ settled.1
          (begins.of_prefix (rest.grown layered).code) first
        obtain ⟨before', funcs', gl', on', run'⟩ :=
          ih on₁ rest fits.2 listed₂ settled.2 later
        exact ⟨before', funcs', gl', on', run₁.trans run'⟩

end ScriptLang.Simulation
