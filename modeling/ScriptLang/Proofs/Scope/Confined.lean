import ScriptLang.Proofs.Scope.Chain

/-!
What a change of scopes leaves as it was.

`Kept xs fs f f' i`: scope `i` lies where it lay, it has lost no name, and nothing is new in it but
variables of `xs` and functions of `fs`. A change is confined to scope `σ` if every other scope has
kept all its names, so that only values have changed there.
-/

namespace ScriptLang.Forest

variable {V F : Type} {f f₁ f₂ f' : Forest V F} {n σ τ i j : Nat} {xs fs : List String}
  {name : String}

/-- The function that a scope itself binds to a name. -/
def func? (f : Forest V F) (i : Nat) (name : String) : Option (Option F) :=
  (f.scopes[i]?).bind fun s => s.funcs.lookup? name

/-- What a scope keeps if only variables of `xs` and functions of `fs` may be bound in it. -/
structure Kept (xs fs : List String) (f f' : Forest V F) (i : Nat) : Prop where
  around : f'.around? i = f.around? i
  names : ∀ x, x ∉ xs → f'.binds i x = f.binds i x
  noName : ∀ x, f.binds i x = true → f'.binds i x = true
  funcs : ∀ g, g ∉ fs → f'.func? i g = f.func? i g
  noFunc : ∀ g, (f.func? i g).isSome = true → (f'.func? i g).isSome = true

theorem Kept.of_scope (same : f'.scopes[i]? = f.scopes[i]?) : Kept xs fs f f' i where
  around := by rw [around?, around?, same]
  names := by
    intro x _
    exact binds_congr same x
  noName := by
    intro x bound
    rw [binds_congr same x]
    exact bound
  funcs := by
    intro g _
    rw [func?, func?, same]
  noFunc := by
    intro g bound
    rw [func?, same]
    exact bound

theorem Kept.trans (h : Kept xs fs f f₁ i) (h' : Kept xs fs f₁ f₂ i) : Kept xs fs f f₂ i where
  around := h'.around.trans h.around
  names := by
    intro x absent
    exact (h'.names x absent).trans (h.names x absent)
  noName := by
    intro x bound
    exact h'.noName x (h.noName x bound)
  funcs := by
    intro g absent
    exact (h'.funcs g absent).trans (h.funcs g absent)
  noFunc := by
    intro g bound
    exact h'.noFunc g (h.noFunc g bound)

/-- More names may be allowed. -/
theorem Kept.mono {xs' fs' : List String} (h : Kept xs fs f f' i) (sub : xs ⊆ xs')
    (sub' : fs ⊆ fs') : Kept xs' fs' f f' i where
  around := h.around
  names := by
    intro x absent
    exact h.names x fun mem => absent (sub mem)
  noName := h.noName
  funcs := by
    intro g absent
    exact h.funcs g fun mem => absent (sub' mem)
  noFunc := h.noFunc

/-- Of the first `n` scopes, scope `σ` may have new variables of `xs` and new functions of `fs`, and
all others have kept their names. No scope is gone. -/
structure Confined (n σ : Nat) (xs fs : List String) (f f' : Forest V F) : Prop where
  size : f.scopes.size ≤ f'.scopes.size
  here : σ < n → Kept xs fs f f' σ
  elsewhere : ∀ i, i < n → i ≠ σ → Kept [] [] f f' i

theorem Confined.refl (n σ : Nat) (xs fs : List String) (f : Forest V F) :
    Confined n σ xs fs f f where
  size := Nat.le_refl _
  here := by
    intro _
    exact .of_scope rfl
  elsewhere := by
    intro i _ _
    exact .of_scope rfl

theorem Confined.trans (h : Confined n σ xs fs f f₁) (h' : Confined n σ xs fs f₁ f₂) :
    Confined n σ xs fs f f₂ where
  size := Nat.le_trans h.size h'.size
  here := by
    intro lt
    exact (h.here lt).trans (h'.here lt)
  elsewhere := by
    intro i lt ne
    exact (h.elsewhere i lt ne).trans (h'.elsewhere i lt ne)

theorem Confined.mono {xs' fs' : List String} (h : Confined n σ xs fs f f') (sub : xs ⊆ xs')
    (sub' : fs ⊆ fs') : Confined n σ xs' fs' f f' where
  size := h.size
  here := by
    intro lt
    exact (h.here lt).mono sub sub'
  elsewhere := h.elsewhere

/-- All of the first `n` scopes have kept their names. -/
theorem Confined.of_all (size : f.scopes.size ≤ f'.scopes.size)
    (all : ∀ i, i < n → Kept [] [] f f' i) : Confined n σ xs fs f f' where
  size := size
  here := by
    intro lt
    exact (all σ lt).mono (List.nil_subset xs) (List.nil_subset fs)
  elsewhere := by
    intro i lt _
    exact all i lt

/-- What is confined to a later scope leaves all of the first `n` scopes their names. -/
theorem Confined.later {ys gs : List String} (h : Confined n τ ys gs f f') (le : n ≤ τ) :
    Confined n σ xs fs f f' := by
  refine .of_all h.size fun i lt => h.elsewhere i lt ?_
  omega

/-! ### Elementary changes -/

theorem func?_setLocal (f : Forest V F) (j : Nat) (x : String) (v : Option V) (i : Nat)
    (g : String) : (f.setLocal j x v).func? i g = f.func? i g := by
  rw [func?, func?, setLocal]
  apply bind_modify
  exact fun _ => rfl

theorem func?_setFunc (f : Forest V F) (j : Nat) (g : String) (v : Option F) (i : Nat)
    (g' : String) : (f.setFunc j g v).func? i g' =
      if j = i ∧ g = g' ∧ i < f.scopes.size then some v else f.func? i g' := by
  rw [func?, func?, setFunc, Array.getElem?_modify]
  by_cases here : j = i
  · subst here
    cases found : f.scopes[j]? with
    | none =>
      have le : f.scopes.size ≤ j := by simpa using found
      simp [Nat.not_lt.mpr le]
    | some s =>
      have lt : j < f.scopes.size := (Array.getElem?_eq_some_iff.mp found).1
      simp [Table.lookup?_put, lt]
  · simp [here]

theorem confined_child (le : n ≤ f.scopes.size) : Confined n σ xs fs f (f.child i).2 := by
  refine .of_all (by simp [child]) fun j lt => ?_
  exact .of_scope (scopes_child_of_lt (Nat.lt_of_lt_of_le lt le))

/-- Binding a variable in a scope itself. -/
theorem confined_setLocal (f : Forest V F) (n σ : Nat) (x : String) (v : Option V) :
    Confined n σ [x] [] f (f.setLocal σ x v) where
  size := Nat.le_of_eq (size_setLocal f σ x v).symm
  here := by
    intro _
    by_cases lt : σ < f.scopes.size
    · refine ⟨around?_setLocal f σ x v σ, ?_, ?_, ?_, ?_⟩
      · intro y other
        rw [binds_setLocal lt]
        have ne : x ≠ y := fun same => other (List.mem_singleton.mpr same.symm)
        simp [ne]
      · intro y bound
        rw [binds_setLocal lt, bound, Bool.or_true]
      · intro g _
        exact func?_setLocal f σ x v σ g
      · intro g bound
        rw [func?_setLocal]
        exact bound
    · -- There is no such scope, so nothing happens.
      have none : f.scopes[σ]? = none := Array.getElem?_eq_none (Nat.le_of_not_lt lt)
      refine .of_scope ?_
      rw [setLocal, Array.getElem?_modify, none]
      simp
  elsewhere := by
    intro i _ ne
    exact .of_scope (scopes_setLocal_of_ne f x v ne.symm)

/-- Assigning where the name is bound already. -/
theorem confined_setLocal_of_binds (bound : f.binds j name = true) (v : Option V) :
    Confined n σ xs fs f (f.setLocal j name v) := by
  refine .of_all (Nat.le_of_eq (size_setLocal f j name v).symm) fun i _ => ?_
  refine ⟨around?_setLocal f j name v i, ?_, ?_, ?_, ?_⟩
  · intro x _
    exact binds_setLocal_of_binds bound v i x
  · intro x here
    rw [binds_setLocal_of_binds bound]
    exact here
  · intro g _
    exact func?_setLocal f j name v i g
  · intro g here
    rw [func?_setLocal]
    exact here

/-- The nearest scope that passes a test is a scope that passes it. -/
theorem nearest?_some {p : Scope V F → Bool} (h : f.nearest? p i = some j) :
    ∃ s, f.scopes[j]? = some s ∧ p s = true := by
  fun_induction nearest? f p i with
  | case1 => cases h
  | case2 i s found here =>
    cases h
    exact ⟨s, found, here⟩
  | case3 | case5 => cases h
  | case4 i s _ _ k _ _ ih => exact ih h

theorem binds_of_holder? (h : f.holder? i name = some j) : f.binds j name = true := by
  obtain ⟨s, found, bound⟩ := nearest?_some h
  rw [← any_has, found]
  exact bound

theorem confined_setVar (f : Forest V F) (n σ : Nat) (x : String) (v : Option V) :
    Confined n σ [x] [] f (f.setVar σ x v) := by
  rw [setVar]
  cases home : f.holder? σ x with
  | none => exact confined_setLocal f n σ x v
  | some j => exact confined_setLocal_of_binds (binds_of_holder? home) v

theorem confined_setFunc (f : Forest V F) (n σ : Nat) (g : String) (v : Option F) :
    Confined n σ [] [g] f (f.setFunc σ g v) where
  size := by simp [setFunc]
  here := by
    intro _
    refine ⟨around?_setFunc f σ g v σ, ?_, ?_, ?_, ?_⟩
    · intro x _
      rw [binds, binds, bound?_setFunc]
    · intro x bound
      rw [binds, bound?_setFunc]
      exact bound
    · intro g' other
      have ne : g ≠ g' := fun same => other (List.mem_singleton.mpr same.symm)
      rw [func?_setFunc, if_neg fun both => ne both.2.1]
    · intro g' bound
      rw [func?_setFunc]
      split
      · rfl
      · exact bound
  elsewhere := by
    intro i _ ne
    refine .of_scope ?_
    rw [setFunc, Array.getElem?_modify, if_neg ne.symm]

end ScriptLang.Forest
