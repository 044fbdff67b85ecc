import Mathlib
import ScriptLang.Proofs.Scope.Lookup

/-!
What an assignment changes.

An assignment changes one binding: the nearest one of the name, or a new one in the scope where the
assignment stands if the name is not bound (`setVar_hits_one`). It is seen from those scopes whose
nearest binding of the name is the one that has changed, and from no other. This rests on two facts
about forests that are built from nothing (`Proper`): a scope lies inside older ones only, and a
name that is bound has a value.
-/

namespace ScriptLang.Forest

variable {V F : Type} {f f' : Forest V F} {i j k d p : Nat} {x y : String} {v : V}

/-- Forests built scope by scope and binding by binding, where names are bound to values only. -/
inductive Built : Forest V F → Prop where
  | empty : Built ⟨#[]⟩
  /-- A new scope that lies inside no other one. -/
  | outermost {f : Forest V F} : Built f → Built ⟨f.scopes.push ⟨[], [], none⟩⟩
  | child {f : Forest V F} {i : Nat} : Built f → i < f.scopes.size → Built (f.child i).2
  | setVar {f : Forest V F} {i : Nat} (x : String) (v : V) :
      Built f → i < f.scopes.size → Built (f.setVar i x (some v))
  | setLocal {f : Forest V F} {i : Nat} (x : String) (v : V) :
      Built f → i < f.scopes.size → Built (f.setLocal i x (some v))
  | setFunc {f : Forest V F} {i : Nat} (g : String) (c : F) :
      Built f → i < f.scopes.size → Built (f.setFunc i g (some c))

/-- Seen from scope `i`, the nearest scope that binds a variable is scope `j`. -/
inductive Nearest (f : Forest V F) (x : String) : Nat → Nat → Prop where
  | here {i : Nat} : f.binds i x = true → Nearest f x i i
  | outside {i p j : Nat} : f.binds i x = false → f.around? i = some (some p) →
      Nearest f x p j → Nearest f x i j

/-- The scope in which an assignment to `x` from scope `i` takes place: the nearest one that binds
the name, or scope `i` itself if there is none. -/
def Target (f : Forest V F) (x : String) (i k : Nat) : Prop :=
  f.Nearest x i k ∨ k = i ∧ ∀ j, ¬f.Nearest x i j

/-- From `f` to `f'` one binding has changed, that of `x` in scope `k`. It has the value `v` now,
and a look-up gives something else than before only if the changed binding is the nearest one. -/
structure Hits (f f' : Forest V F) (x : String) (v : V) (k : Nat) : Prop where
  bound : ∀ j y, f'.bound? j y = if j = k ∧ y = x then some (some v) else f.bound? j y
  around : ∀ j, f'.around? j = f.around? j
  seen : ∀ d, f'.Nearest x d k → f'.getVar d x = some v
  unseen : ∀ d y, ¬(y = x ∧ f'.Nearest x d k) → f'.getVar d y = f.getVar d y
  funcs : ∀ d g, f'.getFunc d g = f.getFunc d g

/-! ### Forests that are built -/

/-- A scope lies inside older ones only, and a name that is bound has a value. -/
structure Proper (f : Forest V F) : Prop where
  older : ∀ i p, f.around? i = some (some p) → p < i
  valued : ∀ i x, f.bound? i x ≠ some none

/-- An assignment takes place in one of the scopes. -/
theorem holder_lt (lt : i < f.scopes.size) (x : String) :
    (f.holder? i x).getD i < f.scopes.size := by
  cases home : f.holder? i x with
  | none => exact lt
  | some k => exact lt_size_of_binds (binds_of_holder? home)

theorem Proper.push (h : f.Proper) {parent : Option Nat}
    (inside : ∀ p, parent = some p → p < f.scopes.size) :
    Proper ⟨f.scopes.push ⟨[], [], parent⟩⟩ where
  older := by
    intro i p around
    rw [around?, Array.getElem?_push] at around
    split at around
    · rename_i new
      rw [new]
      exact inside p (Option.some.inj around)
    · exact h.older i p around
  valued := by
    intro i x
    rw [bound?, Array.getElem?_push]
    split
    · simp
    · exact h.valued i x

theorem Proper.setLocal (h : f.Proper) (lt : i < f.scopes.size) (x : String) (v : V) :
    (f.setLocal i x (some v)).Proper where
  older := by
    intro j p around
    rw [around?_setLocal] at around
    exact h.older j p around
  valued := by
    intro j y
    rw [bound?_setLocal lt]
    split
    · simp
    · exact h.valued j y

theorem Proper.setFunc (h : f.Proper) (i : Nat) (g : String) (c : Option F) :
    (f.setFunc i g c).Proper where
  older := by
    intro j p around
    rw [around?_setFunc] at around
    exact h.older j p around
  valued := by
    intro j y
    rw [bound?_setFunc]
    exact h.valued j y

theorem Built.proper (h : f.Built) : f.Proper := by
  induction h with
  | empty => exact ⟨by simp [around?], by simp [bound?]⟩
  | outermost _ ih => exact ih.push (by simp)
  | @child f i _ lt ih =>
    refine ih.push fun p same => ?_
    rw [← Option.some.inj same]
    exact lt
  | setVar x v _ lt ih => exact ih.setLocal (holder_lt lt x) x v
  | setLocal x v _ lt ih => exact ih.setLocal lt x v
  | setFunc g c _ _ ih => exact ih.setFunc _ g (some c)

/-! ### Looking outward -/

/-- From a scope one sees what it shows itself, or else what is seen from the scope around it. -/
theorem Proper.seen_eq {α : Type} (h : f.Proper) (shows : Scope V F → Option α) (i : Nat) :
    f.seen shows i =
      ((f.scopes[i]?).bind shows).or ((f.around? i).join.bind fun p => f.seen shows p) := by
  cases found : f.scopes[i]? with
  | none =>
    rw [seen, nearest?, found, around?, found]
    rfl
  | some s =>
    cases parent : s.parent with
    | none =>
      rw [seen, nearest?, found, around?, found]
      cases shown : shows s <;> simp [shown, parent, found]
    | some p =>
      have around : f.around? i = some (some p) := by rw [around?, found, Option.map_some, parent]
      rw [seen_inside found parent (h.older i p around), around]
      rfl

theorem Proper.getVar_eq (h : f.Proper) (i : Nat) (x : String) :
    f.getVar i x = (f.bound? i x).join.or ((f.around? i).join.bind fun p => f.getVar p x) := by
  rw [getVar_eq_seen, h.seen_eq, bound?]
  cases f.scopes[i]? <;> rfl

theorem Proper.getFunc_eq (h : f.Proper) (i : Nat) (g : String) :
    f.getFunc i g = (f.func? i g).join.or ((f.around? i).join.bind fun p => f.getFunc p g) := by
  rw [getFunc_eq_seen, h.seen_eq, func?]
  cases f.scopes[i]? <;> rfl

theorem nearest_of_holder? (home : f.holder? i x = some k) : f.Nearest x i k := by
  rw [holder?] at home
  fun_induction nearest? f (fun s => s.vars.has x) i with
  | case1 | case3 | case5 => cases home
  | case2 i s found here =>
    cases home
    refine .here ?_
    rw [← any_has, found]
    exact here
  | case4 i s found other p parent lt ih =>
    refine .outside ?_ ?_ (ih home)
    · rw [← any_has, found]
      simpa using other
    · rw [around?, found, Option.map_some, parent]

theorem Nearest.holder? (h : f.Nearest x i k) (proper : f.Proper) : f.holder? i x = some k := by
  rw [Forest.holder?]
  induction h with
  | @here i bound =>
    obtain ⟨s, found⟩ : ∃ s, f.scopes[i]? = some s :=
      ⟨_, Array.getElem?_eq_getElem (lt_size_of_binds bound)⟩
    rw [← any_has, found] at bound
    have has : s.vars.has x = true := bound
    rw [nearest?, found]
    simp [has]
  | @outside i p j unbound around _ ih =>
    obtain ⟨s, found, parent⟩ := Option.map_eq_some_iff.mp around
    rw [← any_has, found] at unbound
    have other : s.vars.has x = false := unbound
    rw [nearest?, found]
    simp [other, parent, proper.older i p around, ih]

/-- The place of an assignment is the one that the search for the name ends with. -/
theorem Proper.target (h : f.Proper) (x : String) (i : Nat) :
    f.Target x i ((f.holder? i x).getD i) := by
  cases home : f.holder? i x with
  | none =>
    refine .inr ⟨rfl, fun j near => ?_⟩
    rw [near.holder? h] at home
    cases home
  | some k => exact .inl (nearest_of_holder? home)

/-! ### Before and after an assignment -/

/-- The value of the nearest binding is seen. -/
theorem Nearest.getVar (h : f.Nearest x d k) (proper : f.Proper)
    (entry : f.bound? k x = some (some v)) : f.getVar d x = some v := by
  induction h with
  | here =>
    rw [proper.getVar_eq, entry]
    rfl
  | @outside i p j unbound around _ ih =>
    have none : f.bound? i x = none := by simpa [binds] using unbound
    rw [proper.getVar_eq, none, around]
    exact ih entry

/-- A scope whose nearest binding of the name has not changed sees what it saw. -/
theorem getVar_unseen (proper : f.Proper) (proper' : f'.Proper)
    (bound : ∀ j y, f'.bound? j y = if j = k ∧ y = x then some (some v) else f.bound? j y)
    (around : ∀ j, f'.around? j = f.around? j) (d : Nat) (y : String)
    (unseen : ¬(y = x ∧ f'.Nearest x d k)) : f'.getVar d y = f.getVar d y := by
  induction d using Nat.strongRecOn with
  | _ d ih =>
    have same : f'.bound? d y = f.bound? d y := by
      rw [bound]
      refine if_neg ?_
      rintro ⟨rfl, rfl⟩
      have entry : f'.bound? d y = some (some v) := by rw [bound, if_pos ⟨rfl, rfl⟩]
      exact unseen ⟨rfl, .here (binds_of_bound entry)⟩
    rw [proper'.getVar_eq, proper.getVar_eq, same, around]
    cases entry : f.bound? d y with
    | some o =>
      -- A binding has a value, so the look-up ends here.
      cases o with
      | none => exact absurd entry (proper.valued d y)
      | some w => rfl
    | none =>
      cases outer : (f.around? d).join with
      | none => rfl
      | some p =>
        have outer := Option.join_eq_some_iff.mp outer
        refine ih p (proper.older d p outer) ?_
        rintro ⟨rfl, near⟩
        refine unseen ⟨rfl, .outside ?_ ((around d).trans outer) near⟩
        rw [binds, same, entry]
        rfl

/-- Functions are seen as before if the scopes bind the same ones and lie where they lay. -/
theorem getFunc_congr (proper : f.Proper) (proper' : f'.Proper)
    (func : ∀ j g, f'.func? j g = f.func? j g) (around : ∀ j, f'.around? j = f.around? j)
    (d : Nat) (g : String) : f'.getFunc d g = f.getFunc d g := by
  induction d using Nat.strongRecOn with
  | _ d ih =>
    rw [proper'.getFunc_eq, proper.getFunc_eq, func, around]
    cases outer : (f.around? d).join with
    | none => rfl
    | some p =>
      rw [Option.bind_some, Option.bind_some,
        ih p (proper.older d p (Option.join_eq_some_iff.mp outer))]

/-- Binding a variable in a scope hits that binding and no other. -/
theorem Proper.hits_setLocal (h : f.Proper) (lt : k < f.scopes.size) (x : String) (v : V) :
    Hits f (f.setLocal k x (some v)) x v k := by
  have bound : ∀ j y, (f.setLocal k x (some v)).bound? j y =
      if j = k ∧ y = x then some (some v) else f.bound? j y := by
    intro j y
    rw [bound?_setLocal lt]
    simp only [eq_comm]
  have around := around?_setLocal f k x (some v)
  have proper := h.setLocal lt x v
  refine ⟨bound, around, ?_, ?_, ?_⟩
  · intro d near
    refine near.getVar proper ?_
    rw [bound, if_pos ⟨rfl, rfl⟩]
  · exact getVar_unseen h proper bound around
  · exact getFunc_congr h proper (func?_setLocal f k x (some v)) around

/-- An assignment changes exactly one binding, that of the name in the nearest scope that binds it,
or else a new one where the assignment stands, and it is seen from there. -/
theorem setVar_hits_one (built : f.Built) (lt : i < f.scopes.size) (x : String) (v : V) :
    ∃ k, f.Target x i k ∧ Hits f (f.setVar i x (some v)) x v k ∧
      (f.setVar i x (some v)).getVar i x = some v :=
  ⟨(f.holder? i x).getD i, built.proper.target x i,
    built.proper.hits_setLocal (holder_lt lt x) x v, getVar_setVar lt x v⟩

/-- Three scopes inside each other, of which the outermost and the middle one bind `x`. -/
def nested : Forest Nat Nat :=
  (((root.setVar 0 "x" (some 1)).child 0).2.setLocal 1 "x" (some 2)).child 1 |>.2

theorem nested_built : nested.Built := by
  refine .child (.setLocal "x" 2 (.child (.setVar "x" 1 (.outermost .empty) ?_) ?_) ?_) ?_ <;>
    simp [setVar, child, size_setLocal, root]

/-- An assignment in the innermost scope hits the middle one. -/
theorem nested_hits_middle : nested.Built ∧ 2 < nested.scopes.size ∧
    Hits nested (nested.setVar 2 "x" (some 3)) "x" 3 1 := by
  have lt : 2 < nested.scopes.size := by simp [nested, setVar, child, size_setLocal, root]
  have home : nested.holder? 2 "x" = some 1 := by cbv
  obtain ⟨k, target, hits, -⟩ := setVar_hits_one nested_built lt "x" 3
  have place : k = 1 := by
    rcases target with near | ⟨-, unbound⟩
    · rw [near.holder? nested_built.proper] at home
      exact Option.some.inj home
    · exact absurd (nearest_of_holder? home) (unbound 1)
  exact ⟨nested_built, lt, place ▸ hits⟩

end ScriptLang.Forest
