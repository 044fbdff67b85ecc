import ScriptLang.Scope.Forest

/-!
Looking outward from a scope.

A chain lists a scope and the scopes around it, innermost first. What is nearest to a scope is the
first of its chain that passes the test, so look-ups and assignments can be read off lists
(`Chain.holder?_eq`, `Chain.getVar_eq`).
-/

namespace ScriptLang.Forest

variable {V F : Type} {f f' : Forest V F} {i j : Nat} {is : List Nat} {name : String}

/-- The binding of a variable in a scope itself. -/
def bound? (f : Forest V F) (i : Nat) (name : String) : Option (Option V) :=
  (f.scopes[i]?).bind fun s => s.vars.lookup? name

/-- A scope itself binds a variable. -/
def binds (f : Forest V F) (i : Nat) (name : String) : Bool :=
  (f.bound? i name).isSome

/-- The scope around a scope, if there is such a scope at all. -/
def around? (f : Forest V F) (i : Nat) : Option (Option Nat) :=
  (f.scopes[i]?).map Scope.parent

/-- The functions that a scope itself binds. -/
def funcs? (f : Forest V F) (i : Nat) : Option (Table (Option F)) :=
  (f.scopes[i]?).map Scope.funcs

/-- Each scope of a list lies inside the next one, and the last inside none. -/
inductive Chain (f : Forest V F) : List Nat → Prop where
  | last {i : Nat} : f.around? i = some none → Chain f [i]
  | inside {i j : Nat} {rest : List Nat} : f.around? i = some (some j) → j < i →
      Chain f (j :: rest) → Chain f (i :: j :: rest)

theorem binds_of_bound {o : Option V} (h : f.bound? i name = some o) : f.binds i name = true := by
  rw [binds, h]
  rfl

theorem binds_congr (same : f'.scopes[i]? = f.scopes[i]?) (name : String) :
    f'.binds i name = f.binds i name := by
  rw [binds, binds, bound?, bound?, same]

theorem lt_size_of_around {o : Option Nat} (h : f.around? i = some o) : i < f.scopes.size := by
  obtain ⟨s, found, -⟩ := Option.map_eq_some_iff.mp h
  exact (Array.getElem?_eq_some_iff.mp found).1

theorem Chain.lt_size (h : Chain f is) : ∀ i ∈ is, i < f.scopes.size := by
  induction h with
  | last around =>
    intro i mem
    rw [List.mem_singleton.mp mem]
    exact lt_size_of_around around
  | inside around _ _ ih =>
    intro i mem
    rcases List.mem_cons.mp mem with rfl | mem
    · exact lt_size_of_around around
    · exact ih i mem

theorem Chain.nearest?_eq (h : Chain f (i :: is)) (p : Scope V F → Bool) :
    f.nearest? p i = (i :: is).find? fun j => (f.scopes[j]?).any p := by
  generalize all : i :: is = js at h
  induction h generalizing i is with
  | last around =>
    cases all
    obtain ⟨s, found, parent⟩ := Option.map_eq_some_iff.mp around
    rw [nearest?, found]
    by_cases here : p s = true <;> simp [found, here, parent]
  | inside around lt _ ih =>
    cases all
    obtain ⟨s, found, parent⟩ := Option.map_eq_some_iff.mp around
    rw [nearest?, found]
    by_cases here : p s = true
    · simp [found, here]
    · simp [found, here, parent, lt, ih rfl]

theorem any_has (f : Forest V F) (i : Nat) (name : String) :
    ((f.scopes[i]?).any fun s => s.vars.has name) = f.binds i name := by
  rw [binds, bound?]
  cases f.scopes[i]? <;> rfl

/-- An assignment takes place in the first scope of the chain that binds the name. -/
theorem Chain.holder?_eq (h : Chain f (i :: is)) (name : String) :
    f.holder? i name = (i :: is).find? fun j => f.binds j name := by
  rw [holder?, h.nearest?_eq]
  simp only [any_has]

/-- If every name that is bound has a value, then a look-up finds the nearest binding. -/
theorem Chain.getVar_eq (h : Chain f (i :: is)) {v : V}
    (full : ∀ i, f.bound? i name ≠ some none) (home : f.holder? i name = some j)
    (entry : f.bound? j name = some (some v)) : f.getVar i name = some v := by
  have same : ∀ k, ((f.scopes[k]?).any fun s => (s.vars.lookup? name).join.isSome) =
      f.binds k name := by
    intro k
    have full := full k
    rw [bound?] at full
    rw [binds, bound?]
    cases scope : f.scopes[k]? with
    | none => rfl
    | some s =>
      rw [scope] at full
      change (s.vars.lookup? name).join.isSome = (s.vars.lookup? name).isSome
      cases found : s.vars.lookup? name with
      | none => rfl
      | some o =>
        cases o with
        | none => exact absurd found full
        | some v => rfl
  rw [h.holder?_eq] at home
  rw [getVar, h.nearest?_eq]
  simp only [same, home]
  rw [bound?] at entry
  cases scope : f.scopes[j]? with
  | none => simp [scope] at entry
  | some s =>
    rw [scope] at entry
    change (s.vars.lookup? name).join = some v
    rw [Option.bind_some] at entry
    rw [entry]
    rfl

/-- With functions in the outermost scope only, that is where they are looked up. -/
theorem Chain.getFunc_eq (h : Chain f (is ++ [i])) {fs : Table (Option F)}
    (outer : f.funcs? i = some fs) (inner : ∀ j ∈ is, ∀ fs, f.funcs? j = some fs → fs = []) :
    f.getFunc ((is ++ [i]).head (by simp)) name = (fs.lookup? name).join := by
  obtain ⟨s, root, rfl⟩ := Option.map_eq_some_iff.mp outer
  have none : ∀ j ∈ is,
      ((f.scopes[j]?).any fun s => (s.funcs.lookup? name).join.isSome) = false := by
    intro j mem
    cases scope : f.scopes[j]? with
    | none => rfl
    | some s =>
      change (s.funcs.lookup? name).join.isSome = false
      rw [inner j mem s.funcs (by rw [funcs?, scope]; rfl)]
      rfl
  obtain ⟨j, js, eq⟩ : ∃ j js, is ++ [i] = j :: js := by
    cases is with
    | nil => exact ⟨i, [], rfl⟩
    | cons j js => exact ⟨j, js ++ [i], rfl⟩
  have first : (j :: js).find? (fun k => (f.scopes[k]?).any fun s =>
      (s.funcs.lookup? name).join.isSome) =
      if (s.funcs.lookup? name).join.isSome then some i else Option.none := by
    rw [← eq, List.find?_append, List.find?_eq_none.mpr (by simpa using none), Option.none_or,
      List.find?_singleton, root]
    rfl
  simp only [eq, List.head_cons]
  rw [getFunc, Chain.nearest?_eq (eq ▸ h), first]
  cases found : (s.funcs.lookup? name).join with
  | none => simp
  | some c => simp [root, found]

/-! ### Changes -/

/-- What a change of one scope keeps is read from every scope as before. -/
theorem bind_modify {β : Type} {change : Scope V F → Scope V F} {read : Scope V F → Option β}
    (kept : ∀ s, read (change s) = read s) (scopes : Array (Scope V F)) (i j : Nat) :
    ((scopes.modify i change)[j]?).bind read = (scopes[j]?).bind read := by
  rw [Array.getElem?_modify]
  split
  · cases scopes[j]? with
    | none => rfl
    | some s => exact kept s
  · rfl

theorem around?_setLocal (f : Forest V F) (i : Nat) (name : String) (v : Option V) (j : Nat) :
    (f.setLocal i name v).around? j = f.around? j := by
  rw [around?, around?, setLocal, Option.map_eq_bind, Option.map_eq_bind]
  apply bind_modify
  exact fun _ => rfl

theorem funcs?_setLocal (f : Forest V F) (i : Nat) (name : String) (v : Option V) (j : Nat) :
    (f.setLocal i name v).funcs? j = f.funcs? j := by
  rw [funcs?, funcs?, setLocal, Option.map_eq_bind, Option.map_eq_bind]
  apply bind_modify
  exact fun _ => rfl

theorem size_setLocal (f : Forest V F) (i : Nat) (name : String) (v : Option V) :
    (f.setLocal i name v).scopes.size = f.scopes.size := by
  simp [setLocal]

theorem bound?_setLocal (lt : i < f.scopes.size) (v : Option V) (j : Nat) (name' : String) :
    (f.setLocal i name v).bound? j name' =
      if i = j ∧ name = name' then some v else f.bound? j name' := by
  rw [bound?, bound?, setLocal, Array.getElem?_modify]
  by_cases here : i = j
  · subst here
    simp [Array.getElem?_eq_getElem lt, Table.lookup?_put]
  · simp [here]

theorem binds_setLocal (lt : i < f.scopes.size) (v : Option V) (j : Nat) (name' : String) :
    (f.setLocal i name v).binds j name' = (decide (i = j ∧ name = name') || f.binds j name') := by
  rw [binds, bound?_setLocal lt, binds]
  by_cases here : i = j ∧ name = name' <;> simp [here]

theorem lt_size_of_binds (bound : f.binds i name = true) : i < f.scopes.size := by
  rw [binds, bound?] at bound
  cases found : f.scopes[i]? with
  | none => simp [found] at bound
  | some s => exact (Array.getElem?_eq_some_iff.mp found).1

/-- Nothing is bound anew where the name was bound before. -/
theorem binds_setLocal_of_binds (bound : f.binds i name = true) (v : Option V) (j : Nat)
    (name' : String) : (f.setLocal i name v).binds j name' = f.binds j name' := by
  rw [binds_setLocal (lt_size_of_binds bound)]
  by_cases here : i = j ∧ name = name'
  · obtain ⟨rfl, rfl⟩ := here
    simp [bound]
  · simp [here]

theorem scopes_setLocal_of_ne (f : Forest V F) (name : String) (v : Option V) (ne : i ≠ j) :
    (f.setLocal i name v).scopes[j]? = f.scopes[j]? := by
  rw [setLocal, Array.getElem?_modify, if_neg ne]

theorem around?_setFunc (f : Forest V F) (i : Nat) (name : String) (v : Option F) (j : Nat) :
    (f.setFunc i name v).around? j = f.around? j := by
  rw [around?, around?, setFunc, Option.map_eq_bind, Option.map_eq_bind]
  apply bind_modify
  exact fun _ => rfl

theorem bound?_setFunc (f : Forest V F) (i : Nat) (name : String) (v : Option F) (j : Nat)
    (name' : String) : (f.setFunc i name v).bound? j name' = f.bound? j name' := by
  rw [bound?, bound?, setFunc]
  apply bind_modify
  exact fun _ => rfl

theorem funcs?_setFunc (f : Forest V F) (i : Nat) (name : String) (v : Option F) (j : Nat) :
    (f.setFunc i name v).funcs? j =
      if i = j then (f.funcs? j).map (·.put name v) else f.funcs? j := by
  rw [funcs?, funcs?, setFunc, Array.getElem?_modify]
  split
  · cases f.scopes[j]? <;> rfl
  · rfl

theorem scopes_child_of_lt (lt : j < f.scopes.size) :
    (f.child i).2.scopes[j]? = f.scopes[j]? := by
  rw [child, Array.getElem?_push, if_neg (Nat.ne_of_lt lt)]

theorem scopes_child_size (f : Forest V F) (i : Nat) :
    (f.child i).2.scopes[f.scopes.size]? = some ⟨[], [], some i⟩ := by
  rw [child, Array.getElem?_push, if_pos rfl]

end ScriptLang.Forest
