import ScriptLang.Proofs.Eval.Returns
import ScriptLang.Proofs.Simulation.Expr

/-!
How statements end on both engines.

Statements come to their end, or return a value from the running call; in both cases the machine has
got as far as the evaluator (`Outcome`). An evaluator that is stuck says nothing about the machine.
A block ends with the layers it began with, though their values may have changed.
-/

namespace ScriptLang.Simulation

open Compiler (Layered Grows Begins SameSymbols)
open Machine (Runs Config)

variable {w : World} {c c₁ c' : Compiler} {Γ Γ' Γ'' : List Layer} {L : Layer} {st : Store}
  {gl gl' : List (Slot × Cell)} {low : Array Cell} {fr : List Frame} {f f' : Forest Value Closure}
  {ts ts' : List Nat} {a b : Config} {out : String} {r : EStateM.Result Stop Store Unit}

/-! ### Layers -/

/-- Layers after some statements of the innermost one, which may have got new variables. -/
structure Grown (Γ Γ' : List Layer) : Prop where
  frames : Γ'.map (fun L => (L.scope, L.loop)) = Γ.map fun L => (L.scope, L.loop)
  outer : Alike Γ.tail Γ'.tail

theorem Grown.refl (Γ : List Layer) : Grown Γ Γ := ⟨rfl, rfl⟩

theorem Grown.trans (h : Grown Γ Γ') (h' : Grown Γ' Γ'') : Grown Γ Γ'' :=
  ⟨h'.frames.trans h.frames, Eq.trans h'.outer h.outer⟩

theorem Alike.grown (h : Alike Γ Γ') : Grown Γ Γ' := by
  refine ⟨?_, ?_⟩
  · have frames := congrArg (List.map fun s => (s.1, s.2.1)) h
    rwa [List.map_map, List.map_map] at frames
  · unfold Alike
    rw [List.map_tail, List.map_tail, h]

theorem Grown.scopes (h : Grown Γ Γ') : Γ'.map Layer.scope = Γ.map Layer.scope := by
  have scopes := congrArg (List.map Prod.fst) h.frames
  rwa [List.map_map, List.map_map] at scopes

theorem Grown.top (h : Grown Γ Γ') : top Γ' = Simulation.top Γ := by
  have scopes := h.scopes
  cases Γ with
  | nil =>
    cases Γ' with
    | nil => rfl
    | cons => cases scopes
  | cons L Γ =>
    cases Γ' with
    | nil => cases scopes
    | cons L' Γ' => exact (List.cons.inj scopes).1

theorem Grown.of_cons (h : Grown (L :: Γ) Γ') :
    ∃ L' Δ, Γ' = L' :: Δ ∧ L'.scope = L.scope ∧ L'.loop = L.loop ∧ Alike Γ Δ := by
  obtain ⟨frames, outer⟩ := h
  cases Γ' with
  | nil => cases frames
  | cons L' Δ =>
    obtain ⟨first, -⟩ := List.cons.inj frames
    obtain ⟨scope, loop⟩ := Prod.mk.inj first
    exact ⟨L', Δ, rfl, scope, loop, outer⟩

/-! ### Outcomes -/

/-- The machine where the code of a state ends, with just the variables on the stack. -/
def between (c : Compiler) (Γ : List Layer) (low : Array Cell) (fr : List Frame)
    (gl : List (Slot × Cell)) (out : String) : Config :=
  ⟨c.code.size, low ++ pile (flat Γ), fr, gl, out⟩

/-- The machine has come from `a` to the end of some statements. -/
def Passed (w : World) (c' : Compiler) (ts : List Nat) (Γ : List Layer) (low : Array Cell)
    (fr : List Frame) (f : Forest Value Closure) (a : Config) (st' : Store) : Prop :=
  ∃ Γ' gl', Grown Γ Γ' ∧ Keeps ts f st'.forest ∧ Tied w c' Γ' st'.forest gl' low fr ∧
    Runs w.code w.labels a (between c' Γ' low fr gl' st'.output)

/-- The machine has come from `a` out of the running call, with a value. -/
def Left (w : World) (ts : List Nat) (low : Array Cell) (fr : List Frame)
    (f : Forest Value Closure) (a : Config) (v : Value) (st' : Store) : Prop :=
  ∃ frame rest gl', fr = frame :: rest ∧ v.Honest ∧ Keeps ts f st'.forest ∧
    Rooted w st'.forest gl' ∧
    Runs w.code w.labels a ⟨frame.back, low.push (.value v), rest, gl', st'.output⟩

/-- The machine has got from `a` as far as the evaluator. -/
def Outcome (w : World) (c' : Compiler) (ts : List Nat) (Γ : List Layer) (low : Array Cell)
    (fr : List Frame) (f : Forest Value Closure) (a : Config) :
    EStateM.Result Stop Store Unit → Prop
  | .ok _ st' => Passed w c' ts Γ low fr f a st'
  | .error (.ret o) st' => ∃ v, o = some v ∧ Left w ts low fr f a v st'
  | .error _ _ => True

theorem Outcome.of_stuck (stuck : Eval.Stuck r) : Outcome w c' ts Γ low fr f a r := by
  match r with
  | .ok _ _ | .error (.ret _) _ => exact stuck.elim
  | .error (.failure _) _ | .error .outOfFuel _ => trivial

theorem Passed.after {st' : Store} (grown : Grown Γ Γ') (keeps : Keeps ts f f')
    (run : Runs w.code w.labels a b) (passed : Passed w c' ts Γ' low fr f' b st') :
    Passed w c' ts Γ low fr f a st' := by
  obtain ⟨Γ₁, gl₁, grown₁, keeps₁, tied, run₁⟩ := passed
  exact ⟨Γ₁, gl₁, grown.trans grown₁, keeps.trans keeps₁, tied, run.trans run₁⟩

theorem Left.after {v : Value} {st' : Store} (keeps : Keeps ts f f')
    (run : Runs w.code w.labels a b) (left : Left w ts low fr f' b v st') :
    Left w ts low fr f a v st' := by
  obtain ⟨frame, rest, gl₁, frames, honest, keeps₁, rooted, run₁⟩ := left
  exact ⟨frame, rest, gl₁, frames, honest, keeps.trans keeps₁, rooted, run.trans run₁⟩

/-- The machine has gone some way before. -/
theorem Outcome.after (grown : Grown Γ Γ') (keeps : Keeps ts f f')
    (run : Runs w.code w.labels a b) (outcome : Outcome w c' ts Γ' low fr f' b r) :
    Outcome w c' ts Γ low fr f a r := by
  match r with
  | .ok _ st' => exact Passed.after grown keeps run outcome
  | .error (.ret o) st' =>
    obtain ⟨v, eq, left⟩ := outcome
    exact ⟨v, eq, left.after keeps run⟩
  | .error (.failure _) _ | .error .outOfFuel _ => trivial

/-- What happens after statements that may return. -/
theorem Outcome.bind {x y : Eval Unit} (first : Outcome w c₁ ts Γ' low fr f a (x st))
    (rest : ∀ {Γ₁ st₁ gl₁}, Grown Γ' Γ₁ → Keeps ts f st₁.forest →
      Tied w c₁ Γ₁ st₁.forest gl₁ low fr →
      Runs w.code w.labels a (between c₁ Γ₁ low fr gl₁ st₁.output) →
      Outcome w c' ts Γ low fr f a (y st₁)) :
    Outcome w c' ts Γ low fr f a ((x >>= fun _ => y) st) := by
  cases result : x st with
  | ok u st₁ =>
    rw [result] at first
    obtain ⟨Γ₁, gl₁, grown, keeps, tied, run⟩ := first
    rw [bind_of_ok result]
    exact rest grown keeps tied run
  | error e st₁ =>
    rw [result] at first
    rw [bind_of_error result]
    match e with
    | .ret o => exact first
    | .failure _ | .outOfFuel => trivial

/-- More machine code follows, which changes no variables. -/
theorem Outcome.onward (outcome : Outcome w c₁ ts Γ low fr f a r) (same : SameSymbols c₁ c')
    (run : ∀ {Γ₁ gl₁ out₁}, Runs w.code w.labels (between c₁ Γ₁ low fr gl₁ out₁)
      (between c' Γ₁ low fr gl₁ out₁)) :
    Outcome w c' ts Γ low fr f a r := by
  match r with
  | .ok _ st' =>
    obtain ⟨Γ₁, gl₁, grown, keeps, tied, run₁⟩ := outcome
    exact ⟨Γ₁, gl₁, grown, keeps, tied.same same, run₁.trans run⟩
  | .error (.ret o) st' => exact outcome
  | .error (.failure _) _ | .error .outOfFuel _ => trivial

/-! ### Blocks -/

/-- Inside a block that has no variables yet. -/
theorem Tied.opened {i : Nat} {loop : Bool} (tied : Tied w c Γ f gl low fr) (layered : Layered c)
    (linked : Linked f (Knows c.globals) (⟨i, loop, []⟩ :: Γ)) :
    Tied w c.opened (⟨i, loop, []⟩ :: Γ) f gl low fr := by
  obtain ⟨names, placed, globals, functions, -⟩ := tied.context
  refine ⟨⟨names, ⟨placed.locals, placed.globals⟩, globals, functions, fun _ => ?_⟩, linked,
    tied.rooted, tied.base⟩
  have nonneg := layered.nonneg
  change c.depth + 1 ≠ 0
  omega

/-- Inside a block with a scope of its own. -/
theorem Tied.enter (tied : Tied w c Γ f gl low fr) (layered : Layered c) :
    Tied w c.opened (⟨f.scopes.size, false, []⟩ :: Γ) (f.child (top Γ)).2 gl low fr :=
  (tied.after (keeps_child f (top Γ) tied.rooted.around) (tied.rooted.child _)).opened layered
    (tied.linked.enter tied.rooted.around false)

/-- Some instructions that each remove a variable. -/
theorem runs_pops {xs ys : List Held} {pc : Nat}
    (pops : ∀ j < xs.length, w.code[pc + j]? = some .pop) :
    Runs w.code w.labels ⟨pc, low ++ pile (xs ++ ys), fr, gl, out⟩
      ⟨pc + xs.length, low ++ pile ys, fr, gl, out⟩ := by
  induction xs generalizing pc with
  | nil => exact .refl _
  | cons x xs ih =>
    have first := pops 0 (Nat.succ_pos _)
    have rest : ∀ j < xs.length, w.code[pc + 1 + j]? = some .pop := by
      intro j lt
      rw [Nat.add_right_comm, Nat.add_assoc]
      exact pops (j + 1) (Nat.succ_lt_succ lt)
    rw [List.cons_append, pile, Array.append_push, List.length_cons, Nat.add_comm xs.length,
      ← Nat.add_assoc]
    exact (Machine.runs_pop first).trans (ih rest)

theorem Context.size (context : Context w c Γ) : c.locals.size = (flat Γ).length := by
  have length := congrArg List.length context.names
  simpa using length

/-- At the end of a block its variables are popped, and those outside are left. -/
theorem Tied.close (tied : Tied w c₁ (L :: Γ') f gl low fr) (context : Context w c Γ)
    (alike : Alike Γ Γ') (same : SameSymbols c c₁.closed) (begins : c₁.closed.Begins w.code) :
    Tied w c₁.closed Γ' f gl low fr ∧
      Runs w.code w.labels (between c₁ (L :: Γ') low fr gl out)
        (between c₁.closed Γ' low fr gl out) := by
  have context' := (context.alike alike).same same
  have count : c₁.locals.size - c₁.closed.locals.size = L.vars.length := by
    rw [tied.context.size, context'.size, flat_cons, List.length_append, Nat.add_sub_cancel]
  refine ⟨⟨context', tied.linked.1, tied.rooted, tied.base⟩, ?_⟩
  rw [between, between, Compiler.size_closed, count]
  exact runs_pops fun j lt => Compiler.fetch_closed begins (count.symm ▸ lt)

theorem Outcome.close (context : Context w c Γ) (same : SameSymbols c c₁.closed)
    (begins : c₁.closed.Begins w.code) (outcome : Outcome w c₁ ts (L :: Γ) low fr f a r) :
    Outcome w c₁.closed ts Γ low fr f a r := by
  match r with
  | .ok _ st' =>
    obtain ⟨Γ₁, gl₁, grown, keeps, tied, run⟩ := outcome
    obtain ⟨L', Δ, rfl, -, -, alike⟩ := grown.of_cons
    obtain ⟨tied', pops⟩ := tied.close context alike same begins
    exact ⟨Δ, gl₁, alike.grown, keeps, tied', run.trans pops⟩
  | .error (.ret o) st' => exact outcome
  | .error (.failure _) _ | .error .outOfFuel _ => trivial

/-- Changes of a scope that was not there before are no changes. -/
theorem Outcome.outside {σ : Nat} (root : f.around? 0 = some none)
    (outcome : Outcome w c' (f.scopes.size :: ts) Γ low fr (f.child σ).2 a r) :
    Outcome w c' ts Γ low fr f a r := by
  have keeps : ∀ {f'}, Keeps (f.scopes.size :: ts) (f.child σ).2 f' → Keeps ts f f' := by
    intro f' keeps
    refine ((keeps_child f σ root).trans keeps).mono fun i mem lt => ?_
    rcases List.mem_cons.mp mem with rfl | mem
    · exact absurd lt (Nat.lt_irrefl _)
    · exact mem
  match r with
  | .ok _ st' =>
    obtain ⟨Γ₁, gl₁, grown, keeps', rest⟩ := outcome
    exact ⟨Γ₁, gl₁, grown, keeps keeps', rest⟩
  | .error (.ret o) st' =>
    obtain ⟨v, eq, frame, rest, gl₁, frames, honest, keeps', rest'⟩ := outcome
    exact ⟨v, eq, frame, rest, gl₁, frames, honest, keeps keeps', rest'⟩
  | .error (.failure _) _ | .error .outOfFuel _ => trivial

end ScriptLang.Simulation
