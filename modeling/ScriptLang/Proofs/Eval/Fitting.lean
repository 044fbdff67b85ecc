import ScriptLang.Proofs.Eval.Confinement
import ScriptLang.Proofs.Value.Truthful

/-!
Values that fit their tags, in the store and in what a computation yields.

A computation lands if it leaves a store whose values fit, however it ends, and yields or returns a
value that fits (`Lands`). All elementary steps of the evaluator land, and so do their sequences.
-/

namespace ScriptLang

/-- Every value of a variable fits its tag. -/
def Store.Fits (P : Datum → Bool) (st : Store) : Prop :=
  ∀ i x v, st.forest.bound? i x = some (some v) → v.fits P = true

/-- A value that fits its tag, if there is a value. -/
def Fitting (P : Datum → Bool) (o : Option Value) : Prop :=
  ∀ v ∈ o, v.fits P = true

theorem fitting_some {P : Datum → Bool} {v : Value} (h : v.fits P = true) :
    Fitting P (some v) := by
  rintro _ ⟨⟩
  exact h

theorem fitting_none (P : Datum → Bool) : Fitting P none := nofun

namespace Store

variable {P : Datum → Bool} {st : Store} {σ : Nat} {o : Option Value}

theorem fits_empty (P : Datum → Bool) : Store.empty.Fits P := by
  intro i x v bound
  cases i with
  | zero => cases bound
  | succ i => cases bound

theorem Fits.getVar (h : st.Fits P) {x : String} {v : Value}
    (found : st.forest.getVar σ x = some v) : v.fits P = true := by
  rw [Forest.getVar] at found
  cases home : st.forest.nearest? (fun s => (s.vars.lookup? x).join.isSome) σ with
  | none =>
    rw [home] at found
    cases found
  | some j =>
    simp only [home] at found
    obtain ⟨s, scope, value⟩ := Option.bind_eq_some_iff.mp found
    refine h j x v ?_
    rw [Forest.bound?, scope]
    exact Option.join_eq_some_iff.mp value

theorem Fits.setLocal (h : st.Fits P) (lt : σ < st.forest.scopes.size) (x : String)
    (fits : Fitting P o) : ({ st with forest := st.forest.setLocal σ x o } : Store).Fits P := by
  intro j y v bound
  rw [Forest.bound?_setLocal lt] at bound
  split at bound
  · cases bound
    exact fits v rfl
  · exact h j y v bound

/-- The scope in which a variable is assigned to is there. -/
theorem holder_lt_size (lt : σ < st.forest.scopes.size) (x : String) :
    (st.forest.holder? σ x).getD σ < st.forest.scopes.size := by
  cases home : st.forest.holder? σ x with
  | none => exact lt
  | some j => exact Forest.lt_size_of_binds (Forest.binds_of_holder? home)

theorem Fits.setVar (h : st.Fits P) (lt : σ < st.forest.scopes.size) (x : String)
    (fits : Fitting P o) : ({ st with forest := st.forest.setVar σ x o } : Store).Fits P :=
  h.setLocal (holder_lt_size lt x) x fits

/-- What an assignment stores is in the store. -/
theorem Fits.of_setVar {x : String} {v : Value}
    (h : ({ st with forest := st.forest.setVar σ x (some v) } : Store).Fits P)
    (lt : σ < st.forest.scopes.size) : v.fits P = true := by
  refine h ((st.forest.holder? σ x).getD σ) x v ?_
  rw [Forest.setVar, Forest.bound?_setLocal (holder_lt_size lt x), if_pos ⟨rfl, rfl⟩]

theorem Fits.setFunc (h : st.Fits P) (σ : Nat) (f : String) (g : Option Closure) :
    ({ st with forest := st.forest.setFunc σ f g } : Store).Fits P := by
  intro j x v bound
  rw [Forest.bound?_setFunc] at bound
  exact h j x v bound

theorem Fits.child (h : st.Fits P) (σ : Nat) :
    ({ st with forest := (st.forest.child σ).2 } : Store).Fits P := by
  intro j x v bound
  refine h j x v ?_
  rw [Forest.bound?] at bound ⊢
  rcases Nat.lt_trichotomy j st.forest.scopes.size with lt | rfl | gt
  · rw [Forest.scopes_child_of_lt lt] at bound
    exact bound
  · rw [Forest.scopes_child_size] at bound
    cases bound
  · rw [Forest.child, Array.getElem?_eq_none (by simpa using Nat.succ_le_of_lt gt)] at bound
    cases bound

end Store

namespace Eval

variable {P : Datum → Bool} {α β : Type} {fuel n m σ inner : Nat} {st : Store}

/-! ### What steps leave -/

/-- A store of at least `n` scopes whose values fit their tags. -/
structure Kept (P : Datum → Bool) (n : Nat) (st : Store) : Prop where
  size : n ≤ st.forest.scopes.size
  fits : st.Fits P

theorem Kept.lt_size (h : Kept P n st) (lt : σ < n) : σ < st.forest.scopes.size :=
  Nat.lt_of_lt_of_le lt h.size

theorem Kept.mono (h : Kept P n st) (le : m ≤ n) : Kept P m st :=
  ⟨Nat.le_trans le h.size, h.fits⟩

/-- `Q` holds of what is yielded, and a value that is returned from the running function fits. -/
def Yielded (P : Datum → Bool) (Q : α → Prop) : EStateM.Result Stop Store α → Prop
  | .ok a _ => Q a
  | .error (.ret o) _ => Fitting P o
  | .error (.failure _) _ | .error .outOfFuel _ => True

/-- A computation keeps the store, however it ends, and what it yields or returns is as it
should be. -/
structure Lands (P : Datum → Bool) (n : Nat) (Q : α → Prop) (x : Eval α) (st : Store) : Prop where
  kept : Kept P n (after (x st))
  yields : Yielded P Q (x st)

section

variable {Q : α → Prop} {R : β → Prop} {x : Eval α}

theorem Lands.mono (h : Lands P n Q x st) (le : m ≤ n) : Lands P m Q x st :=
  ⟨h.kept.mono le, h.yields⟩

theorem Lands.of_ok (h : Lands P n Q x st) {a : α} {st₁ : Store} (done : x st = .ok a st₁) :
    Kept P n st₁ ∧ Q a := by
  obtain ⟨kept, yields⟩ := h
  rw [done] at kept yields
  exact ⟨kept, yields⟩

theorem Lands.of_ret (h : Lands P n Q x st) {o : Option Value} {st₁ : Store}
    (returned : x st = .error (.ret o) st₁) : Kept P n st₁ ∧ Fitting P o := by
  obtain ⟨kept, yields⟩ := h
  rw [returned] at kept yields
  exact ⟨kept, yields⟩

theorem Lands.of_eq {y : Eval α} {st₁ : Store} (h : Lands P n Q y st₁) (same : x st = y st₁) :
    Lands P n Q x st :=
  ⟨same ▸ h.kept, same ▸ h.yields⟩

/-- A computation that stops early lands whatever it would have yielded. -/
theorem Lands.of_error (h : Lands P n Q x st) {e : Stop} {st₁ : Store}
    (stopped : x st = .error e st₁) : Lands P n R (throw e) st₁ := by
  obtain ⟨kept, yields⟩ := h
  rw [stopped] at kept yields
  refine ⟨kept, ?_⟩
  cases e with
  | ret o => exact yields
  | failure f => trivial
  | outOfFuel => trivial

theorem Lands.bind {k : α → Eval β} (first : Lands P n Q x st)
    (rest : ∀ a st₁, x st = .ok a st₁ → Kept P n st₁ → Q a → Lands P n R (k a) st₁) :
    Lands P n R (x >>= k) st := by
  cases done : x st with
  | ok a st₁ =>
    obtain ⟨kept, yields⟩ := first.of_ok done
    exact (rest a st₁ done kept yields).of_eq (bind_of_ok done)
  | error e st₁ => exact (first.of_error done).of_eq (bind_of_error done)

theorem lands_pure {a : α} (kept : Kept P n st) (yields : Q a) : Lands P n Q (pure a) st :=
  ⟨kept, yields⟩

theorem lands_fault (kept : Kept P n st) (f : Fault) : Lands P n Q (fault f) st :=
  ⟨kept, trivial⟩

theorem lands_report (kept : Kept P n st) (line : Line) (text : String) :
    Lands P n Q (report line text) st :=
  ⟨kept, trivial⟩

theorem lands_get {k : Store → Eval α} (h : Lands P n Q (k st) st) : Lands P n Q (get >>= k) st :=
  h.of_eq get_bind

/-- A call yields what the body returns or, if the body ends, a number. -/
theorem Lands.returning {body : Eval Unit} (closed : Datum.Closed P)
    (h : Lands P n (fun _ => True) body st) : Lands P n (Fitting P) (Eval.returning body) st := by
  cases done : body st with
  | ok a st₁ =>
    have result : Eval.returning body st = .ok (some .nothing) st₁ := by rw [Eval.returning, done]
    have number : Value.nothing.fits P = true := closed.number rfl
    exact (lands_pure (h.of_ok done).1 (fitting_some number)).of_eq result
  | error e st₁ =>
    cases e with
    | ret o =>
      have result : Eval.returning body st = .ok o st₁ := by rw [Eval.returning, done]
      obtain ⟨kept, fits⟩ := h.of_ret done
      exact (lands_pure kept fits).of_eq result
    | failure f =>
      have result : Eval.returning body st = .error (.failure f) st₁ := by
        rw [Eval.returning, done]
      exact (h.of_error done).of_eq result
    | outOfFuel =>
      have result : Eval.returning body st = .error .outOfFuel st₁ := by
        rw [Eval.returning, done]
      exact (h.of_error done).of_eq result

theorem lands_lift {r : Except Fault α} (kept : Kept P n st) (gives : Gives Q r) :
    Lands P n Q (lift r) st := by
  cases r with
  | ok a => exact lands_pure kept (gives a rfl)
  | error f => exact lands_fault kept f

end

theorem lands_demand {o : Option Value} (kept : Kept P n st) (fits : Fitting P o) :
    Lands P n (·.fits P = true) (demand o) st := by
  cases o with
  | some v => exact lands_pure kept (fits v rfl)
  | none => exact lands_fault kept _

theorem lands_lookup (kept : Kept P n st) (σ : Nat) (x : String) (line : Line) :
    Lands P n (·.fits P = true) (lookup σ x line) st := by
  unfold lookup
  refine lands_get ?_
  split
  · exact lands_report kept _ _
  · rename_i v found
    split
    · exact lands_report kept _ _
    · exact lands_pure kept (kept.fits.getVar found)

theorem lands_binary {a b : Value} (closed : Datum.Closed P) (kept : Kept P n st) (op : Token)
    (left : a.fits P = true) (right : b.fits P = true) (line : Line) :
    Lands P n (Fitting P) (binary op a b line) st := by
  unfold binary
  split
  · exact lands_pure kept (fitting_none P)
  · split
    · exact lands_report kept _ _
    · split
      · rename_i o _ _ _ v result
        exact lands_pure kept (fitting_some (closed.apply o left right v result))
      · exact lands_report kept _ _
      · exact lands_fault kept _

theorem lands_unary {v : Value} (closed : Datum.Closed P) (kept : Kept P n st) (op : Token)
    (fits : v.fits P = true) : Lands P n (Fitting P) (unary op v) st := by
  unfold unary
  split
  · split
    · rename_i w result
      exact lands_pure kept (fitting_some (closed.neg v w result))
    · exact lands_report kept _ _
    · exact lands_fault kept _
  · split
    · exact lands_pure kept (fitting_some fits)
    · exact lands_report kept _ _
  · split
    · exact lands_pure kept (fitting_some rfl)
    · exact lands_report kept _ _
  · exact lands_pure kept (fitting_none P)

theorem lands_print (kept : Kept P n st) (d ending : Datum) :
    Lands P n (fun _ => True) (print d ending) st := by
  refine (lands_lift kept (gives_any _)).bind fun text st₁ _ kept _ => ?_
  split
  · exact ⟨⟨kept.size, kept.fits⟩, trivial⟩
  · exact ⟨⟨kept.size, kept.fits⟩, trivial⟩
  · exact lands_fault kept _

theorem lands_setLocal {o : Option Value} (kept : Kept P n st) (lt : σ < n) (x : String)
    (fits : Fitting P o) : Lands P n (fun _ => True) (setLocal σ x o) st := by
  have size := (Forest.size_setLocal st.forest σ x o).symm
  exact ⟨⟨size ▸ kept.size, kept.fits.setLocal (kept.lt_size lt) x fits⟩, trivial⟩

theorem lands_setVar {o : Option Value} (kept : Kept P n st) (lt : σ < n) (x : String)
    (fits : Fitting P o) : Lands P n (fun _ => True) (setVar σ x o) st := by
  have size := (Forest.size_setLocal st.forest ((st.forest.holder? σ x).getD σ) x o).symm
  exact ⟨⟨size ▸ kept.size, kept.fits.setVar (kept.lt_size lt) x fits⟩, trivial⟩

theorem lands_setFunc (kept : Kept P n st) (σ : Nat) (f : String) (g : Option Closure) :
    Lands P n (fun _ => True)
      (modify fun st => { st with forest := st.forest.setFunc σ f g }) st := by
  have size : (st.forest.setFunc σ f g).scopes.size = st.forest.scopes.size := by
    simp [Forest.setFunc]
  exact ⟨⟨size ▸ kept.size, kept.fits.setFunc σ f g⟩, trivial⟩

/-- A value is stored under the name of a target, or nothing happens. -/
theorem lands_target {store : String → Eval Unit} (kept : Kept P n st) (target : Expr)
    (stores : ∀ x, Lands P n (fun _ => True) (store x) st) :
    Lands P n (fun _ => True) (do store (← targetName target)) st := by
  unfold targetName
  cases target.target? with
  | none => exact lands_fault kept _
  | some x => exact stores x

end Eval

end ScriptLang
