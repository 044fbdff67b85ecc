import Mathlib
import ScriptLang.Proofs.Eval.Fitting
import ScriptLang.Proofs.Eval.Moments
import ScriptLang.Workload

/-!
Which tags of a run tell the truth.

Only texts carry the tag of texts, and only truth values that of truth values. The tag of numbers
can be on other data: a counted loop puts it on its counter, whatever its start is. If every loop
that makes a round starts from a number, then that tag too tells the truth, and only then
(`tags_truthful_iff`). The invariant goes from each step of a plan to the next, and from a task to
the tasks that it starts.
-/

namespace ScriptLang.Eval

variable {P : Datum → Bool} {α β : Type} {fuel n σ inner : Nat} {st : Store}

/-- A counted loop makes its first round, with the counter `i`. -/
inductive FirstRound : Moment → Datum → Prop where
  | intro {n σ inner : Nat} {var : String} {varLine line : Line} {start stop : Expr}
      {step : Option Expr} {body : Block} {c : Comparison} {last delta i : Datum}
      {st st' : Store} :
      Starts ⟨n + 2, .stmt σ (.count var varLine start stop step body line), st⟩
        ⟨n + 1, .counted σ inner var c last delta body i, st'⟩ →
      i.ordered c last = .ok true →
      FirstRound ⟨n + 2, .stmt σ (.count var varLine start stop step body line), st⟩ i

/-- The counters of first rounds are in `P`, as far as they are basic data. -/
def Seeded (P : Datum → Bool) (m : Moment) : Prop :=
  ∀ m' i, Reaches m m' → FirstRound m' i → i.isBasic = true → P i = true

theorem Seeded.starts {m m' : Moment} (h : Seeded P m) (starts : Starts m m') : Seeded P m' := by
  intro m'' i reaches first basic
  exact h m'' i (.step starts reaches) first basic

/-- What a task relies on: its scopes are among the first `n`, and a counter that is stored in the
next round is in `P`. -/
def Task.Fits (P : Datum → Bool) (fuel n : Nat) : Task → Prop
  | .expr σ _ | .exprs σ _ | .call σ _ _ _ | .stmt σ _ | .block σ _ | .stmts σ _ => σ < n
  | .rounds σ inner _ _ _ => σ < n ∧ inner < n
  | .counted σ inner _ c last _ _ i =>
    σ < n ∧ inner < n ∧ (0 < fuel → i.ordered c last = .ok true → P i = true)

/-- What a task yields fits. -/
def Task.Yields (P : Datum → Bool) : (t : Task) → t.Result → Prop
  | .expr _ _, o | .call _ _ _ _, o => Fitting P o
  | .exprs _ _, os => ∀ o ∈ os, Fitting P o
  | _, _ => True

/-- The store fits at an event, and a task that starts finds what it relies on. -/
def Event.Fits (P : Datum → Bool) (fuel : Nat) : Event → Prop
  | .start t st => st.Fits P ∧ t.Fits P fuel st.forest.scopes.size
  | .done st => st.Fits P

theorem Event.Fits.store {e : Event} (h : e.Fits P fuel) : e.store.Fits P := by
  cases e with
  | start t st => exact h.1
  | done st => exact h

/-- Every task lands if it finds what it relies on. -/
def AllLand (P : Datum → Bool) (fuel : Nat) : Prop :=
  ∀ t st, Seeded P ⟨fuel, t, st⟩ → st.Fits P → t.Fits P fuel st.forest.scopes.size →
    Lands P st.forest.scopes.size (t.Yields P) (t.run fuel) st

namespace Plan

/-- If the tasks that a plan starts are seeded, then following it lands and all its events fit. -/
def Sound (P : Datum → Bool) (fuel n : Nat) (Q : α → Prop) (p : Plan α) (st : Store) : Prop :=
  (∀ t st', Event.start t st' ∈ p.events (Task.run fuel) st → Seeded P ⟨fuel, t, st'⟩) →
    Lands P n Q (p.exec (Task.run fuel)) st ∧ ∀ e ∈ p.events (Task.run fuel) st, e.Fits P fuel

section

variable {Q : α → Prop} {R : β → Prop}

theorem sound_act {x : Eval α} (lands : Lands P n Q x st) : Sound P fuel n Q (act x) st := by
  intro _
  refine ⟨lands, fun e mem => ?_⟩
  rw [List.mem_singleton.mp mem]
  exact lands.kept.fits

theorem sound_eval {t : Task} (ih : AllLand P fuel) (kept : Kept P n st)
    (fits : t.Fits P fuel st.forest.scopes.size) : Sound P fuel n (t.Yields P) (eval t) st := by
  intro seeded
  have lands := ih t st (seeded t st List.mem_cons_self) kept.fits fits
  refine ⟨lands.mono kept.size, fun e mem => ?_⟩
  rcases List.mem_cons.mp mem with rfl | mem
  · exact ⟨kept.fits, fits⟩
  · rw [List.mem_singleton.mp mem]
    exact lands.kept.fits

theorem Sound.bind {p : Plan α} {k : α → Plan β} (first : Sound P fuel n Q p st)
    (rest : ∀ a st₁, p.exec (Task.run fuel) st = .ok a st₁ → Kept P n st₁ → Q a →
      Sound P fuel n R (k a) st₁) : Sound P fuel n R (p.bind k) st := by
  intro seeded
  obtain ⟨lands, fit⟩ := first fun t st' mem => seeded t st' (mem_events_bind.mpr (.inl mem))
  have next : ∀ a st₁, p.exec (Task.run fuel) st = .ok a st₁ → Kept P n st₁ → Q a →
      Lands P n R ((k a).exec (Task.run fuel)) st₁ ∧
        ∀ e ∈ (k a).events (Task.run fuel) st₁, e.Fits P fuel := by
    intro a st₁ done kept yields
    exact rest a st₁ done kept yields fun t st' mem =>
      seeded t st' (mem_events_of_ok done mem)
  refine ⟨lands.bind fun a st₁ done kept yields => (next a st₁ done kept yields).1, ?_⟩
  intro e mem
  rcases mem_events_bind.mp mem with mem | ⟨a, st₁, done, mem⟩
  · exact fit e mem
  · obtain ⟨kept, yields⟩ := lands.of_ok done
    exact (next a st₁ done kept yields).2 e mem

theorem Sound.returning {p : Plan Unit} (closed : Datum.Closed P)
    (h : Sound P fuel n (fun _ => True) p st) :
    Sound P fuel n (Fitting P) (Plan.returning p) st := by
  intro seeded
  obtain ⟨lands, fit⟩ := h seeded
  exact ⟨lands.returning closed, fit⟩

theorem Sound.mono {p : Plan α} {m : Nat} (h : Sound P fuel n Q p st) (le : m ≤ n) :
    Sound P fuel m Q p st := by
  intro seeded
  obtain ⟨lands, fit⟩ := h seeded
  exact ⟨lands.mono le, fit⟩

/-- What follows the making of a scope can rely on that scope too. -/
theorem sound_child {k : Nat → Plan α} (kept : Kept P n st) (τ : Nat)
    (rest : ∀ inner st₁, childScope τ st = .ok inner st₁ → n ≤ inner → Kept P (inner + 1) st₁ →
      Sound P fuel (inner + 1) Q (k inner) st₁) :
    Sound P fuel n Q ((act (childScope τ)).bind k) st := by
  have grown : Kept P (st.forest.scopes.size + 1)
      { st with forest := (st.forest.child τ).2 } := by
    refine ⟨?_, kept.fits.child τ⟩
    simp [Forest.child]
  have made : Lands P n (fun inner => n ≤ inner ∧
      Kept P (inner + 1) { st with forest := (st.forest.child τ).2 }) (childScope τ) st :=
    ⟨grown.mono (Nat.le_succ_of_le kept.size), kept.size, grown⟩
  refine (sound_act made).bind fun inner st₁ done _ new => ?_
  obtain ⟨le, grown⟩ := new
  cases done
  exact (rest _ _ rfl le grown).mono (Nat.le_succ_of_le le)

theorem sound_value (ih : AllLand P fuel) (kept : Kept P n st) (lt : σ < n) (e : Expr) :
    Sound P fuel n (·.fits P = true) (value σ e) st := by
  have value := sound_eval (t := .expr σ e) ih kept (kept.lt_size lt)
  exact value.bind fun o st₁ _ kept fits => sound_act (lands_demand kept fits)

end

/-! ### The plans of tasks -/

theorem sound_params {ps : List Param} {vs : List (Option Value)} (kept : Kept P n st)
    (lt : σ < n) (fits : ∀ o ∈ vs, Fitting P o) :
    Sound P fuel n (fun _ => True) (params σ ps vs) st := by
  induction ps generalizing vs st with
  | nil => exact sound_act (lands_pure kept trivial)
  | cons p ps ih =>
    cases vs with
    | nil => exact sound_act (lands_pure kept trivial)
    | cons v vs =>
      have stores := lands_setLocal kept lt p.name (fits v List.mem_cons_self)
      exact (sound_act stores).bind fun _ st₁ _ kept _ =>
        ih kept fun o mem => fits o (List.mem_cons_of_mem v mem)

theorem sound_expr (closed : Datum.Closed P) (ih : AllLand P fuel) (kept : Kept P n st)
    (lt : σ < n) (e : Expr) : Sound P fuel n (Fitting P) (Plan.expr σ e) st := by
  cases e with
  | integer value line =>
    rw [Plan.expr]
    split
    · exact sound_act (lands_pure kept (fitting_some (closed.number rfl)))
    · exact sound_act (lands_fault kept _)
  | real value line => exact sound_act (lands_pure kept (fitting_some (closed.number rfl)))
  | text value line => exact sound_act (lands_pure kept (fitting_some rfl))
  | bool value line => exact sound_act (lands_pure kept (fitting_some rfl))
  | group e line => exact sound_eval (t := .expr σ e) ih kept (kept.lt_size lt)
  | name x line =>
    refine sound_act ?_
    rw [map_eq_pure_bind]
    exact (lands_lookup kept σ x line).bind fun v st₁ _ kept fits =>
      lands_pure kept (fitting_some fits)
  | binary op left right line =>
    exact (sound_value ih kept lt left).bind fun a st₁ _ kept fitsLeft =>
      (sound_value ih kept lt right).bind fun b st₂ _ kept fitsRight =>
        sound_act (lands_binary closed kept op fitsLeft fitsRight line)
  | unary op operand line =>
    exact (sound_value ih kept lt operand).bind fun v st₁ _ kept fits =>
      sound_act (lands_unary closed kept op fits)
  | logical op left right line =>
    refine (sound_value ih kept lt left).bind fun a st₁ _ kept fits => ?_
    split
    · exact sound_act (lands_pure kept (fitting_some fits))
    · exact sound_eval (t := .expr σ right) ih kept (kept.lt_size lt)
  | call f args line =>
    exact sound_eval (t := .call σ f args line) ih kept (kept.lt_size lt)

theorem sound_exprs (ih : AllLand P fuel) (kept : Kept P n st) (lt : σ < n) (es : List Expr) :
    Sound P fuel n (fun os => ∀ o ∈ os, Fitting P o) (Plan.exprs σ es) st := by
  cases es with
  | nil => exact sound_act (lands_pure kept nofun)
  | cons e es =>
    have head := sound_eval (t := .expr σ e) ih kept (kept.lt_size lt)
    refine head.bind fun v st₁ _ kept fits => ?_
    have tail := sound_eval (t := .exprs σ es) ih kept (kept.lt_size lt)
    refine tail.bind fun vs st₂ _ kept fitting => sound_act (lands_pure kept ?_)
    intro o mem
    rcases List.mem_cons.mp mem with rfl | mem
    · exact fits
    · exact fitting o mem

theorem sound_call (closed : Datum.Closed P) (ih : AllLand P fuel) (kept : Kept P n st)
    (lt : σ < n) (f : String) (args : List Expr) (line : Line) :
    Sound P fuel n (Fitting P) (Plan.call σ f args line) st := by
  have reads : Lands P n (fun _ => True) (get : Eval Store) st := ⟨kept, trivial⟩
  refine (sound_act reads).bind fun st' st₁ _ kept _ => ?_
  split
  · exact sound_act (lands_report kept _ _)
  · rename_i g _
    split
    · exact sound_act (lands_report kept _ _)
    · have values := sound_eval (t := .exprs σ args) ih kept (kept.lt_size lt)
      refine values.bind fun vs st₂ _ kept fitting =>
        sound_child kept _ fun inner st₃ _ _ kept => ?_
      refine (sound_params kept (Nat.lt_succ_self inner) fitting).bind fun _ st₄ _ kept _ => ?_
      have placed := kept.lt_size (Nat.lt_succ_self inner)
      exact (sound_eval (t := .block inner g.body) ih kept placed).returning closed

theorem sound_branch (ih : AllLand P fuel) (kept : Kept P n st) (lt : σ < n) (test : Expr)
    (thenBlock : Block) (elseBlock : Option Block) (line : Line) :
    Sound P fuel n (fun _ => True) (Plan.stmt σ (.branch test thenBlock elseBlock line)) st := by
  refine (sound_value ih kept lt test).bind fun v st₁ _ kept _ => ?_
  split
  · refine sound_child kept σ fun inner st₂ _ _ kept => ?_
    have block : ∀ b, Sound P fuel (inner + 1) (fun _ => True) (eval (.block inner b)) st₂ :=
      fun b => sound_eval (t := .block inner b) ih kept (kept.lt_size (Nat.lt_succ_self inner))
    split
    · exact block thenBlock
    · cases elseBlock with
      | none => exact sound_act (lands_pure kept trivial)
      | some b => exact block b
  · exact sound_act (lands_report kept _ _)

theorem sound_step (ih : AllLand P fuel) (kept : Kept P n st) (lt : σ < n) (upward : Bool)
    (step : Option Expr) :
    Sound P fuel n (fun _ => True)
      (match step with
        | none => act (pure (Datum.int (if upward then 1 else -1)))
        | some e => (value σ e).bind fun v => act (pure v.datum)) st := by
  cases step with
  | none => exact sound_act (lands_pure kept trivial)
  | some e =>
    exact (sound_value ih kept lt e).bind fun v st₁ _ kept _ =>
      sound_act (lands_pure kept trivial)

theorem sound_count (closed : Datum.Closed P) (ih : AllLand P fuel) (kept : Kept P n st)
    (lt : σ < n) (var : String) (varLine : Line) (start stop : Expr) (step : Option Expr)
    (body : Block) (line : Line)
    (seeded : Seeded P ⟨fuel + 1, .stmt σ (.count var varLine start stop step body line), st⟩) :
    Sound P fuel n (fun _ => True)
      (Plan.stmt σ (.count var varLine start stop step body line)) st := by
  refine (sound_value ih kept lt start).bind fun i st₁ first kept fits =>
    (sound_value ih kept lt stop).bind fun last st₂ second kept _ =>
      sound_child kept σ fun inner st₃ third le kept => ?_
  have lt' : σ < inner + 1 := Nat.lt_succ_of_le (Nat.le_trans (Nat.le_of_lt lt) le)
  refine (sound_act (lands_lift kept (gives_any _))).bind fun upward st₄ fourth kept _ =>
    (sound_step ih kept lt' upward step).bind fun delta st₅ fifth kept _ => ?_
  -- The loop starts here with a first round, and the datum of a value that fits is basic.
  have counter : 0 < fuel → i.datum.ordered (if upward then .le else .ge) last.datum = .ok true →
      P i.datum = true := by
    intro pos more
    cases fuel with
    | zero => exact absurd pos (Nat.lt_irrefl 0)
    | succ k =>
      have started : Event.start
          (.counted σ inner var (if upward then .le else .ge) last.datum delta body i.datum) st₅ ∈
          (Plan.stmt σ (.count var varLine start stop step body line)).events
            (Task.run (k + 1)) st :=
        mem_events_of_ok first <| mem_events_of_ok second <| mem_events_of_ok third <|
          mem_events_of_ok fourth <| mem_events_of_ok fifth List.mem_cons_self
      exact seeded _ _ (.refl _) (.intro (.intro started) more) (closed.fits_basic fits)
  exact sound_eval (t := .counted σ inner var _ last.datum delta body i.datum) ih kept
    ⟨kept.lt_size lt', kept.lt_size (Nat.lt_succ_self inner), counter⟩

theorem sound_stmt (closed : Datum.Closed P) (ih : AllLand P fuel) (kept : Kept P n st)
    (lt : σ < n) (s : Stmt) (seeded : Seeded P ⟨fuel + 1, .stmt σ s, st⟩) :
    Sound P fuel n (fun _ => True) (Plan.stmt σ s) st := by
  cases s with
  | print value ending line =>
    exact (sound_value ih kept lt value).bind fun v st₁ _ kept _ =>
      sound_act (lands_print kept v.datum ending)
  | assign target value line =>
    exact (sound_value ih kept lt value).bind fun v st₁ _ kept fits =>
      sound_act (lands_target kept target fun x => lands_setVar kept lt x (fitting_some fits))
  | assignLocal target value line =>
    exact (sound_value ih kept lt value).bind fun v st₁ _ kept fits =>
      sound_act (lands_target kept target fun x => lands_setLocal kept lt x (fitting_some fits))
  | branch test thenBlock elseBlock line =>
    exact sound_branch ih kept lt test thenBlock elseBlock line
  | loop test body line =>
    refine sound_child kept σ fun inner st₁ _ le kept => ?_
    have lt' : σ < inner + 1 := Nat.lt_succ_of_le (Nat.le_trans (Nat.le_of_lt lt) le)
    exact sound_eval (t := .rounds σ inner test body line) ih kept
      ⟨kept.lt_size lt', kept.lt_size (Nat.lt_succ_self inner)⟩
  | count var varLine start stop step body line =>
    exact sound_count closed ih kept lt var varLine start stop step body line seeded
  | func name params body line =>
    exact sound_act (lands_setFunc kept σ name _)
  | call f args line =>
    have value := sound_eval (t := .call σ f args line) ih kept (kept.lt_size lt)
    exact value.bind fun _ st₁ _ kept _ => sound_act (lands_pure kept trivial)
  | ret value line =>
    have value := sound_eval (t := .expr σ value) ih kept (kept.lt_size lt)
    exact value.bind fun v st₁ _ kept fits => sound_act ⟨kept, fits⟩

theorem sound_stmts (ih : AllLand P fuel) (kept : Kept P n st) (lt : σ < n) (ss : List Stmt) :
    Sound P fuel n (fun _ => True) (Plan.stmts σ ss) st := by
  cases ss with
  | nil => exact sound_act (lands_pure kept trivial)
  | cons s ss =>
    have head := sound_eval (t := .stmt σ s) ih kept (kept.lt_size lt)
    exact head.bind fun _ st₁ _ kept _ =>
      sound_eval (t := .stmts σ ss) ih kept (kept.lt_size lt)

theorem sound_rounds (ih : AllLand P fuel) (kept : Kept P n st) (lt : σ < n) (lt' : inner < n)
    (test : Expr) (body : Block) (line : Line) :
    Sound P fuel n (fun _ => True) (Plan.rounds σ inner test body line) st := by
  refine (sound_value ih kept lt test).bind fun v st₁ _ kept _ => ?_
  split
  · split
    · have round := sound_eval (t := .block inner body) ih kept (kept.lt_size lt')
      exact round.bind fun _ st₂ _ kept _ =>
        sound_eval (t := .rounds σ inner test body line) ih kept
          ⟨kept.lt_size lt, kept.lt_size lt'⟩
    · exact sound_act (lands_pure kept trivial)
  · exact sound_act (lands_report kept _ _)

/-- A counter stays in `P` from round to round, whatever the step is. -/
theorem sound_counted (closed : Datum.Closed P) (ih : AllLand P fuel) (kept : Kept P n st)
    (lt : σ < n) (lt' : inner < n) (var : String) (c : Comparison) (last step : Datum)
    (body : Block) (i : Datum) (counter : i.ordered c last = .ok true → P i = true) :
    Sound P fuel n (fun _ => True) (Plan.counted σ inner var c last step body i) st := by
  have test : Lands P n (fun more => more = true → P i = true) (lift (i.ordered c last)) st := by
    refine lands_lift kept ?_
    rintro _ result rfl
    exact counter result
  refine (sound_act test).bind fun more st₁ _ kept counter => ?_
  split
  · rename_i yes
    have inP := counter yes
    have stores := lands_setVar kept lt var (o := some (.number i)) (fitting_some inP)
    refine (sound_act stores).bind fun _ st₂ _ kept _ => ?_
    have round := sound_eval (t := .block inner body) ih kept (kept.lt_size lt')
    refine round.bind fun _ st₃ _ kept _ => ?_
    have next : Sound P fuel n (P · = true) (act (lift (i.add step))) st₃ :=
      sound_act (lands_lift kept (closed.add inP step))
    refine next.bind fun next st₄ _ kept inP => ?_
    exact sound_eval (t := .counted σ inner var c last step body next) ih kept
      ⟨kept.lt_size lt, kept.lt_size lt', fun _ _ => inP⟩
  · exact sound_act (lands_pure kept trivial)

end Plan

/-! ### From task to task -/

/-- A task that finds what it relies on follows a sound plan. -/
theorem Task.sound (closed : Datum.Closed P) (ih : AllLand P fuel) (t : Task) (fits : st.Fits P)
    (relies : t.Fits P (fuel + 1) st.forest.scopes.size) (seeded : Seeded P ⟨fuel + 1, t, st⟩) :
    t.plan.Sound P fuel st.forest.scopes.size (t.Yields P) st := by
  have kept : Kept P st.forest.scopes.size st := ⟨Nat.le_refl _, fits⟩
  cases t with
  | expr σ e => exact Plan.sound_expr closed ih kept relies e
  | exprs σ es => exact Plan.sound_exprs ih kept relies es
  | call σ f args line => exact Plan.sound_call closed ih kept relies f args line
  | stmt σ s => exact Plan.sound_stmt closed ih kept relies s seeded
  | block σ b => exact Plan.sound_eval (t := .stmts σ b.stmts) ih kept relies
  | stmts σ ss => exact Plan.sound_stmts ih kept relies ss
  | rounds σ inner test body line =>
    exact Plan.sound_rounds ih kept relies.1 relies.2 test body line
  | counted σ inner var c last step body i =>
    obtain ⟨lt, lt', counter⟩ := relies
    exact Plan.sound_counted closed ih kept lt lt' var c last step body i
      (counter (Nat.succ_pos fuel))

/-- What a task does if it finds what it relies on: following its plan lands, and at all its events
the store fits and the tasks that start find what they rely on. -/
theorem Task.follows (closed : Datum.Closed P) (ih : AllLand P fuel) (t : Task) (fits : st.Fits P)
    (relies : t.Fits P (fuel + 1) st.forest.scopes.size) (seeded : Seeded P ⟨fuel + 1, t, st⟩) :
    Lands P st.forest.scopes.size (t.Yields P) (t.run (fuel + 1)) st ∧
      ∀ e ∈ t.plan.events (Task.run fuel) st, e.Fits P fuel := by
  rw [Task.run_succ]
  refine Task.sound closed ih t fits relies seeded fun t' st' mem => ?_
  exact seeded.starts (.intro mem)

-- By induction on the fuel: a task starts only tasks that have less.
theorem allLand (closed : Datum.Closed P) (fuel : Nat) : AllLand P fuel := by
  induction fuel with
  | zero =>
    intro t st _ fits _
    rw [Task.run_zero]
    exact ⟨⟨Nat.le_refl _, fits⟩, trivial⟩
  | succ fuel ih =>
    intro t st seeded fits relies
    exact (Task.follows closed ih t fits relies seeded).1

/-- A moment at which the store fits and the task finds what it relies on. -/
def Moment.Fits (P : Datum → Bool) (m : Moment) : Prop :=
  m.store.Fits P ∧ m.task.Fits P m.fuel m.store.forest.scopes.size

theorem Starts.fits {m m' : Moment} (closed : Datum.Closed P) (h : Starts m m') (fits : m.Fits P)
    (seeded : Seeded P m) : m'.Fits P := by
  cases h with
  | intro mem => exact (Task.follows closed (allLand closed _) _ fits.1 fits.2 seeded).2 _ mem

theorem Reaches.fits {m m' : Moment} (closed : Datum.Closed P) (h : Reaches m m') (fits : m.Fits P)
    (seeded : Seeded P m) : m'.Fits P ∧ Seeded P m' := by
  induction h with
  | refl m => exact ⟨fits, seeded⟩
  | step starts _ ih => exact ih (starts.fits closed fits seeded) (seeded.starts starts)

theorem Moment.Fits.events {m : Moment} (closed : Datum.Closed P) (fits : m.Fits P)
    (seeded : Seeded P m) {e : Event} (mem : e ∈ m.events) : e.store.Fits P := by
  obtain ⟨fuel, t, st⟩ := m
  cases fuel with
  | zero =>
    rw [List.mem_singleton.mp mem]
    exact fits.1
  | succ fuel =>
    rcases List.mem_cons.mp mem with rfl | mem
    · exact fits.1
    · exact ((Task.follows closed (allLand closed fuel) t fits.1 fits.2 seeded).2 e mem).store

/-! ### Whole runs -/

/-- In all that a task does, every variable has a value that fits its tag, and every expression
yields one. -/
structure Truthful (P : Datum → Bool) (m₀ : Moment) : Prop where
  stored : ∀ m, Reaches m₀ m → ∀ e ∈ m.events, e.store.Fits P
  yielded : ∀ n σ e st, Reaches m₀ ⟨n, .expr σ e, st⟩ → ∀ v st', expr n σ e st = .ok (some v) st' →
    v.fits P = true

theorem truthful_of_seeded {m₀ : Moment} (closed : Datum.Closed P) (fits : m₀.Fits P)
    (seeded : Seeded P m₀) : Truthful P m₀ where
  stored := by
    intro m reaches e mem
    obtain ⟨fits, seeded⟩ := reaches.fits closed fits seeded
    exact fits.events closed seeded mem
  yielded := by
    intro n σ e st reaches v st' done
    obtain ⟨fits, seeded⟩ := reaches.fits closed fits seeded
    have lands := allLand closed n (.expr σ e) st seeded fits.1 fits.2
    exact (lands.of_ok done).2 v rfl

/-- A round of a counted loop stores the counter with the tag of numbers. -/
theorem counter_stored {var : String} {c : Comparison} {last step i : Datum} {body : Block}
    (more : i.ordered c last = .ok true) :
    Event.done { st with forest := st.forest.setVar σ var (some (.number i)) } ∈
      Moment.events ⟨n + 1, .counted σ inner var c last step body i, st⟩ := by
  have test : (lift (i.ordered c last) : Eval Bool) st = .ok true st := by
    rw [more]
    rfl
  refine List.mem_cons_of_mem _ (Plan.mem_events_of_ok test ?_)
  exact Plan.mem_events_bind.mpr (.inl List.mem_cons_self)

/-- At every moment of a program's run, from the empty store on, tags of texts and of truth values
tell the truth, and what is tagged as a number is a number, a truth value or a text. It is always a
number if and only if all counted loops make their first rounds with numbers. -/
theorem tags_truthful_iff (fuel : Nat) (b : Block) :
    Truthful Datum.isBasic ⟨fuel, .block 0 b, .empty⟩ ∧
      (Truthful Datum.isNumber ⟨fuel, .block 0 b, .empty⟩ ↔
        ∀ m i, Reaches ⟨fuel, .block 0 b, .empty⟩ m → FirstRound m i → i.isNumber = true) := by
  have fits : ∀ P, Moment.Fits P ⟨fuel, .block 0 b, .empty⟩ :=
    fun P => ⟨Store.fits_empty P, Nat.zero_lt_one⟩
  have anyway : Seeded Datum.isBasic ⟨fuel, .block 0 b, .empty⟩ := fun _ _ _ _ basic => basic
  refine ⟨truthful_of_seeded Datum.closed_isBasic (fits _) anyway, ?_, ?_⟩
  · intro truthful m i reaches first
    cases first with
    | intro starts more =>
      have reaches := reaches.snoc starts
      obtain ⟨⟨_, placed, _⟩, _⟩ := reaches.fits Datum.closed_isBasic (fits _) anyway
      exact (truthful.stored _ reaches _ (counter_stored more)).of_setVar placed
  · intro first
    exact truthful_of_seeded Datum.closed_isNumber (fits _) fun m i reaches round _ =>
      first m i reaches round

/-- The tree of `for x := false, false do println x end`. -/
def flagLoop : Block :=
  .mk [.count "x" 1 (.bool false 1) (.bool false 1) none
    (.mk [.print (.name "x" 1) (.str "\n") 1] 1) 1] 1

/-- The scopes and the output that its evaluation ends with. -/
def flagStore : Store :=
  ⟨⟨#[⟨[("x", some ⟨.number, .bool false⟩)], [], none⟩, ⟨[], [], some 0⟩]⟩, "false\n"⟩

/-- A loop that counts in truth values leaves one in the store with the tag of numbers. -/
theorem flagLoop_tags_number :
    Workload.parsed "for x := false, false do println x end" = .ok flagLoop ∧
      program 9 0 (.block flagLoop) .empty = .ok none flagStore ∧
      flagStore.forest.getVar 0 "x" = some ⟨.number, .bool false⟩ ∧
      ¬ Truthful Datum.isNumber ⟨9, .block 0 flagLoop, .empty⟩ := by
  have evaluated : Task.run 8 (.stmts 0 flagLoop.stmts) .empty = .ok () flagStore := by cbv
  refine ⟨by cbv, by cbv, by cbv, fun truthful => ?_⟩
  have ends : Event.done flagStore ∈ Moment.events ⟨9, .block 0 flagLoop, .empty⟩ := by
    have last : Event.done (after (Task.run 8 (.stmts 0 flagLoop.stmts) .empty)) ∈
        Moment.events ⟨9, .block 0 flagLoop, .empty⟩ :=
      List.mem_cons_of_mem _ (List.mem_cons_of_mem _ List.mem_cons_self)
    rw [evaluated] at last
    exact last
  have fits := truthful.stored _ (.refl _) _ ends 0 "x" ⟨.number, .bool false⟩ (by cbv)
  cases fits

end ScriptLang.Eval
