import ScriptLang.Proofs.Scope.Confined

/-!
Looking up from a scope, and what lies around it.

From a scope inside another one a name is seen as the inner scope itself binds it, or else as the
outer one sees it (`getVar_inside`, `getFunc_inside`). What has been assigned to a variable is what
is seen (`getVar_setVar`). Look-ups and assignments reach only the scopes that enclose the one they
start from.
-/

namespace ScriptLang.Forest

variable {V F α : Type} {f f' : Forest V F} {i j k n : Nat} {s : Scope V F}

/-- What the nearest scope that has something to show shows of itself. -/
def seen (f : Forest V F) (shows : Scope V F → Option α) (i : Nat) : Option α :=
  match f.nearest? (fun s => (shows s).isSome) i with
  | none => none
  | some j => (f.scopes[j]?).bind shows

theorem getVar_eq_seen (f : Forest V F) (i : Nat) (x : String) :
    f.getVar i x = f.seen (fun s => (s.vars.lookup? x).join) i := rfl

theorem getFunc_eq_seen (f : Forest V F) (i : Nat) (g : String) :
    f.getFunc i g = f.seen (fun s => (s.funcs.lookup? g).join) i := rfl

theorem seen_here {shows : Scope V F → Option α} {a : α} (found : f.scopes[i]? = some s)
    (here : shows s = some a) : f.seen shows i = some a := by
  rw [seen, nearest?, found]
  simp [here, found]

theorem seen_outside {shows : Scope V F → Option α} (found : f.scopes[i]? = some s)
    (nothing : shows s = none) (parent : s.parent = some j) (lt : j < i) :
    f.seen shows i = f.seen shows j := by
  rw [seen, nearest?, found]
  simp [nothing, parent, lt, seen]

/-- From an inner scope one sees what the scope itself shows, or else what is seen from outside. -/
theorem seen_inside {shows : Scope V F → Option α} (found : f.scopes[i]? = some s)
    (parent : s.parent = some j) (lt : j < i) :
    f.seen shows i = (shows s).or (f.seen shows j) := by
  cases shown : shows s with
  | none => exact seen_outside found shown parent lt
  | some a => exact seen_here found shown

theorem getVar_inside (around : f.around? i = some (some j)) (lt : j < i) (x : String) :
    f.getVar i x = (f.bound? i x).join.or (f.getVar j x) := by
  obtain ⟨s, found, parent⟩ := Option.map_eq_some_iff.mp around
  rw [getVar_eq_seen, seen_inside found parent lt, bound?, found]
  rfl

theorem getFunc_inside (around : f.around? i = some (some j)) (lt : j < i) (g : String) :
    f.getFunc i g = (f.func? i g).join.or (f.getFunc j g) := by
  obtain ⟨s, found, parent⟩ := Option.map_eq_some_iff.mp around
  rw [getFunc_eq_seen, seen_inside found parent lt, func?, found]
  rfl

/-! ### After an assignment -/

theorem scopes_setLocal_self (found : f.scopes[i]? = some s) (x : String) (v : Option V) :
    (f.setLocal i x v).scopes[i]? = some { s with vars := s.vars.put x v } := by
  rw [setLocal, Array.getElem?_modify, if_pos rfl, found]
  rfl

/-- The value in the nearest scope that binds a name is seen, if it is one. -/
theorem getVar_setLocal_holder {x : String} (home : f.holder? i x = some k) (v : V) :
    (f.setLocal k x (some v)).getVar i x = some v := by
  rw [getVar_eq_seen]
  rw [holder?] at home
  fun_induction nearest? f (fun s => s.vars.has x) i with
  | case1 | case3 | case5 => cases home
  | case2 i s found here =>
    cases home
    refine seen_here (scopes_setLocal_self found x (some v)) ?_
    simp [Table.lookup?_put]
  | case4 i s found other j parent lt ih =>
    -- Scope `i` does not bind the name, so it is not the one that has changed.
    obtain ⟨s', found', bound⟩ := nearest?_some home
    have ne : k ≠ i := by
      rintro rfl
      cases found.symm.trans found'
      exact other bound
    have unbound : s.vars.lookup? x = none := by
      simpa [Table.has] using other
    refine (seen_outside ?_ ?_ parent lt).trans (ih home)
    · rw [scopes_setLocal_of_ne f x (some v) ne]
      exact found
    · rw [unbound]
      rfl

/-- What has been assigned to a variable is seen. -/
theorem getVar_setVar (lt : i < f.scopes.size) (x : String) (v : V) :
    (f.setVar i x (some v)).getVar i x = some v := by
  rw [setVar]
  cases home : f.holder? i x with
  | none =>
    have found : f.scopes[i]? = some f.scopes[i] := Array.getElem?_eq_getElem lt
    refine seen_here (scopes_setLocal_self found x (some v)) ?_
    simp [Table.lookup?_put]
  | some k => exact getVar_setLocal_holder home v

/-! ### Enclosing scopes -/

/-- Scope `i` is scope `τ` or lies around it. -/
inductive Encloses (f : Forest V F) (i : Nat) : Nat → Prop where
  | self : Encloses f i i
  | outer {τ p : Nat} : f.around? τ = some (some p) → p < τ → Encloses f i p → Encloses f i τ

theorem Encloses.le {τ : Nat} (h : f.Encloses i τ) : i ≤ τ := by
  induction h with
  | self => exact Nat.le_refl i
  | outer _ lt _ ih => exact Nat.le_trans ih (Nat.le_of_lt lt)

theorem Encloses.trans {τ : Nat} (h : f.Encloses i j) (h' : f.Encloses j τ) : f.Encloses i τ := by
  induction h' with
  | self => exact h
  | outer around lt _ ih => exact .outer around lt ih

theorem encloses_of_nearest? {p : Scope V F → Bool} (h : f.nearest? p i = some j) :
    f.Encloses j i := by
  fun_induction nearest? f p i with
  | case1 | case3 | case5 => cases h
  | case2 => cases h; exact .self
  | case4 i s found _ k parent lt ih =>
    refine .outer ?_ lt (ih h)
    rw [around?, found, Option.map_some, parent]

/-- A function that is seen from a scope is bound in a scope around it. -/
theorem getFunc_eq_some {g : String} {c : F} (h : f.getFunc i g = some c) :
    ∃ j, f.Encloses j i ∧ f.func? j g = some (some c) := by
  rw [getFunc] at h
  split at h
  · cases h
  · rename_i j home
    obtain ⟨s, found, here⟩ := Option.bind_eq_some_iff.mp h
    refine ⟨j, encloses_of_nearest? home, ?_⟩
    rw [func?, found]
    exact Option.join_eq_some_iff.mp here

/-- If the first `n` scopes lie where they lay, then what encloses one of them is the same. -/
theorem Encloses.congr {τ : Nat} (same : ∀ j, j < n → f'.around? j = f.around? j) (lt : τ < n)
    (h : f'.Encloses i τ) : f.Encloses i τ := by
  induction h with
  | self => exact .self
  | outer around inside _ ih =>
    exact .outer ((same _ lt).symm.trans around) inside (ih (Nat.lt_trans inside lt))

end ScriptLang.Forest
