import ScriptLang.Eval.Basic
import ScriptLang.Proofs.Code.Heights
import ScriptLang.Proofs.Scope.Chain

/-!
Variables on the stack and variables in scopes.

While a call runs, the compiler has one slot for each local, the machine one cell, and the evaluator
a chain of scopes. A list of layers ties the three together: a layer is an open block with its scope
and its variables, and a variable knows the scope it is kept in (`Held.home`).

That scope is not always the one of the block. The scope of a loop is made once, so in later rounds
it still has the variables of the rounds before, which the compiler does not know yet. An assignment
to such a name inside an inner block makes a slot of the inner block, but goes to the scope of the
loop. `Linked` says what can happen: the scope of a loop binds only names that are not known outside
of it, and a variable that hides another one of its name is kept in the scope of its own block.
-/

namespace ScriptLang.Simulation

/-- A variable that has a cell on the stack. -/
structure Held where
  name : String
  /-- The scope that binds it. -/
  home : Nat
  value : Value

/-- An open block. -/
structure Layer where
  scope : Nat
  /-- Whether it is the body of a loop. -/
  loop : Bool
  /-- The newest first. -/
  vars : List Held

variable {xs ys : List Held} {x : Held} {n : String} {i : Nat} {v : Value} {Γ Γ' : List Layer}
  {L : Layer}

/-! ### Variables -/

/-- The newest variable with a name, and its slot. -/
def seek (n : String) : List Held → Option (Held × Nat)
  | [] => none
  | x :: xs => if x.name = n then some (x, xs.length) else seek n xs

/-- The cells of variables, from the bottom of the stack upward. -/
def pile : List Held → Array Cell
  | [] => #[]
  | x :: xs => (pile xs).push (.value x.value)

/-- Changes the newest variable with a name. -/
def setFirst (n : String) (v : Value) : List Held → List Held
  | [] => []
  | x :: xs => if x.name = n then { x with value := v } :: xs else x :: setFirst n v xs

@[simp] theorem size_pile (xs : List Held) : (pile xs).size = xs.length := by
  induction xs with
  | nil => rfl
  | cons x xs ih => simp [pile, ih]

theorem seek_append (n : String) (xs ys : List Held) :
    seek n (xs ++ ys) =
      match seek n xs with
      | some (x, i) => some (x, i + ys.length)
      | none => seek n ys := by
  induction xs with
  | nil => rfl
  | cons x xs ih =>
    by_cases here : x.name = n
    · simp [seek, here]
    · simp [seek, here, ih]

theorem seek_append_eq_none : seek n (xs ++ ys) = none ↔ seek n xs = none ∧ seek n ys = none := by
  rw [seek_append]
  cases seek n xs <;> simp

theorem cell_of_seek (found : seek n xs = some (x, i)) :
    (pile xs)[i]? = some (.value x.value) := by
  induction xs with
  | nil => cases found
  | cons y ys ih =>
    rw [pile]
    rw [seek] at found
    split at found
    · cases found
      rw [← size_pile ys, Array.getElem?_push_size]
    · have cell := ih found
      obtain ⟨lt, -⟩ := Array.getElem?_eq_some_iff.mp cell
      rw [Array.getElem?_push_lt lt, ← Array.getElem?_eq_getElem lt]
      exact cell

theorem set_push_size (s : Array Cell) (a b : Cell) :
    (s.push a).setIfInBounds s.size b = s.push b := by
  apply Array.ext_getElem?
  grind

theorem set_push_of_lt {s : Array Cell} {a : Cell} (b : Cell) (lt : i < s.size) :
    (s.push a).setIfInBounds i b = (s.setIfInBounds i b).push a := by
  apply Array.ext_getElem?
  grind

@[simp] theorem length_setFirst (n : String) (v : Value) (xs : List Held) :
    (setFirst n v xs).length = xs.length := by
  induction xs with
  | nil => rfl
  | cons x xs ih =>
    rw [setFirst]
    split
    · rfl
    · simp [ih]

theorem pile_setFirst (found : seek n xs = some (x, i)) :
    pile (setFirst n v xs) = (pile xs).setIfInBounds i (.value v) := by
  induction xs with
  | nil => cases found
  | cons y ys ih =>
    rw [seek] at found
    rw [setFirst, pile]
    split at found
    · rename_i here
      cases found
      rw [if_pos here, pile, ← size_pile ys]
      exact (set_push_size _ _ _).symm
    · rename_i other
      rw [if_neg other, pile, ih found]
      have lt : i < (pile ys).size := (Array.getElem?_eq_some_iff.mp (cell_of_seek found)).1
      exact (set_push_of_lt _ lt).symm

/-- A change leaves all names, and all other values. -/
theorem seek_setFirst (n : String) (v : Value) (xs : List Held) (n' : String) :
    seek n' (setFirst n v xs) =
      (seek n' xs).map fun p => if n = n' then ({ p.1 with value := v }, p.2) else p := by
  induction xs with
  | nil => rfl
  | cons x xs ih =>
    rw [setFirst]
    by_cases here : x.name = n
    · rw [if_pos here, seek, seek]
      by_cases there : x.name = n'
      · simp [there, ← here]
      · have other : n ≠ n' := fun eq => there (here.trans eq)
        simp [there, other]
    · rw [if_neg here, seek, seek, ih]
      by_cases there : x.name = n'
      · have other : n ≠ n' := fun eq => here (there.trans eq.symm)
        simp [there, other]
      · simp [there]

/-! ### Layers -/

/-- All variables, the newest first. -/
def flat (Γ : List Layer) : List Held := Γ.flatMap Layer.vars

/-- The scopes of layers and the outermost scope, innermost first. -/
def ids (Γ : List Layer) : List Nat := Γ.map Layer.scope ++ [0]

/-- The innermost scope. -/
def top : List Layer → Nat
  | [] => 0
  | L :: _ => L.scope

/-- Changes the newest variable with a name, in whichever layer it is. -/
def assign (n : String) (v : Value) : List Layer → List Layer
  | [] => []
  | L :: Γ =>
    if (seek n L.vars).isSome then { L with vars := setFirst n v L.vars } :: Γ
    else L :: assign n v Γ

/-- What is known of a layer apart from the values of its variables. -/
def Layer.shape (L : Layer) : Nat × Bool × List (String × Nat) :=
  (L.scope, L.loop, L.vars.map fun x => (x.name, x.home))

/-- Layers that differ at most in the values of their variables. -/
def Alike (Γ Γ' : List Layer) : Prop := Γ'.map Layer.shape = Γ.map Layer.shape

theorem flat_cons (L : Layer) (Γ : List Layer) : flat (L :: Γ) = L.vars ++ flat Γ := rfl

theorem ids_cons (L : Layer) (Γ : List Layer) : ids (L :: Γ) = L.scope :: ids Γ := rfl

theorem ids_eq_top (Γ : List Layer) : ∃ is, ids Γ = top Γ :: is := by
  cases Γ with
  | nil => exact ⟨[], rfl⟩
  | cons L Γ => exact ⟨ids Γ, rfl⟩

theorem setFirst_append (n : String) (v : Value) (xs ys : List Held) :
    setFirst n v (xs ++ ys) =
      if (seek n xs).isSome then setFirst n v xs ++ ys else xs ++ setFirst n v ys := by
  induction xs with
  | nil => rfl
  | cons x xs ih =>
    rw [List.cons_append, setFirst, setFirst, seek]
    by_cases here : x.name = n
    · simp [here]
    · simp only [here, if_false, ih]
      split <;> rfl

theorem flat_assign (n : String) (v : Value) (Γ : List Layer) :
    flat (assign n v Γ) = setFirst n v (flat Γ) := by
  induction Γ with
  | nil => rfl
  | cons L Γ ih =>
    rw [assign, flat_cons, setFirst_append]
    split
    · rfl
    · rw [flat_cons, ih]

theorem shape_setFirst (n : String) (v : Value) (xs : List Held) :
    (setFirst n v xs).map (fun x => (x.name, x.home)) = xs.map fun x => (x.name, x.home) := by
  induction xs with
  | nil => rfl
  | cons x xs ih =>
    rw [setFirst]
    split
    · rfl
    · rw [List.map_cons, ih, List.map_cons]

theorem alike_assign (n : String) (v : Value) (Γ : List Layer) : Alike Γ (assign n v Γ) := by
  induction Γ with
  | nil => rfl
  | cons L Γ ih =>
    unfold Alike
    rw [assign]
    split
    · rw [List.map_cons, List.map_cons, Layer.shape, shape_setFirst]
      rfl
    · rw [List.map_cons, List.map_cons, ih]

theorem Alike.ids (h : Alike Γ Γ') : ids Γ' = Simulation.ids Γ := by
  have scopes := congrArg (List.map Prod.fst) h
  simp only [List.map_map] at scopes
  exact congrArg (· ++ [0]) scopes

theorem Alike.top (h : Alike Γ Γ') : top Γ' = Simulation.top Γ := by
  obtain ⟨is, eq⟩ := ids_eq_top Γ
  obtain ⟨is', eq'⟩ := ids_eq_top Γ'
  have ids := h.ids
  rw [eq, eq'] at ids
  exact (List.cons.inj ids).1

theorem Alike.names (h : Alike Γ Γ') :
    (flat Γ').map (·.name) = (flat Γ).map (·.name) := by
  induction Γ generalizing Γ' with
  | nil =>
    cases Γ' with
    | nil => rfl
    | cons => cases h
  | cons L Γ ih =>
    cases Γ' with
    | nil => cases h
    | cons L' Γ' =>
      obtain ⟨first, rest⟩ := List.cons.inj h
      have vars := congrArg (fun s => s.2.2.map Prod.fst) first
      simp only [Layer.shape, List.map_map] at vars
      rw [flat_cons, flat_cons, List.map_append, List.map_append, ih rest]
      exact congrArg (· ++ _) vars

/-! ### Scopes -/

variable {f f' : Forest Value Closure} {G : String → Prop} {h : Nat}

/-- The first of some scopes that binds a name. -/
def homeIn (f : Forest Value Closure) (is : List Nat) (n : String) : Option Nat :=
  is.find? fun i => f.binds i n

/-- A layer inside others. `G` are the globals that the compiler knows. -/
structure LayerOk (f : Forest Value Closure) (G : String → Prop) (L : Layer) (Γ : List Layer) :
    Prop where
  around : f.around? L.scope = some (some (top Γ))
  deeper : top Γ < L.scope
  /-- The scope of a loop, which may have variables of earlier rounds. -/
  again : L.loop = true → ∀ n, f.binds L.scope n = true → seek n (flat Γ) = none ∧ ¬ G n
  /-- The scope of any other block. -/
  once : L.loop = false → ∀ n, f.binds L.scope n = true → seek n L.vars ≠ none
  home : ∀ {n x i}, seek n L.vars = some (x, i) →
    x.home ≠ 0 ∧ homeIn f (ids (L :: Γ)) n = some x.home ∧
      f.bound? x.home n = some (some x.value) ∧ (seek n (flat Γ) ≠ none → x.home = L.scope)

/-- Layers whose variables are kept in the scopes of a forest. -/
def Linked (f : Forest Value Closure) (G : String → Prop) : List Layer → Prop
  | [] => True
  | L :: Γ => Linked f G Γ ∧ LayerOk f G L Γ

theorem Linked.chain (linked : Linked f G Γ) (root : f.around? 0 = some none) :
    f.Chain (ids Γ) := by
  induction Γ with
  | nil => exact .last root
  | cons L Γ ih =>
    obtain ⟨outer, here⟩ := linked
    obtain ⟨is, eq⟩ := ids_eq_top Γ
    have chain := ih outer
    rw [ids_cons, eq]
    rw [eq] at chain
    exact .inside here.around here.deeper chain

theorem Linked.scope_ne_zero (linked : Linked f G Γ) (mem : i ∈ Γ.map Layer.scope) : i ≠ 0 := by
  induction Γ with
  | nil => cases mem
  | cons L Γ ih =>
    rcases List.mem_cons.mp mem with rfl | mem
    · have := linked.2.deeper
      omega
    · exact ih linked.1 mem

theorem homeIn_cons_of_binds {is : List Nat} (bound : f.binds i n = true) :
    homeIn f (i :: is) n = some i := by
  rw [homeIn, List.find?_cons, bound]

theorem homeIn_cons_of_not_binds {is : List Nat} (free : f.binds i n = false) :
    homeIn f (i :: is) n = homeIn f is n := by
  rw [homeIn, List.find?_cons, free]
  rfl

/-- The scope of a layer binds no name of which only a variable outside is known. -/
theorem LayerOk.free (here : LayerOk f G L Γ) (own : seek n L.vars = none)
    (known : seek n (flat Γ) ≠ none ∨ G n) : f.binds L.scope n = false := by
  cases bound : f.binds L.scope n with
  | false => rfl
  | true =>
    cases loop : L.loop with
    | true =>
      obtain ⟨none, global⟩ := here.again loop n bound
      rcases known with known | known
      · exact absurd none known
      · exact absurd known global
    | false => exact absurd own (here.once loop n bound)

/-- A known variable is in the nearest scope that binds its name. -/
theorem Linked.home (linked : Linked f G Γ) (found : seek n (flat Γ) = some (x, i)) :
    x.home ≠ 0 ∧ homeIn f (ids Γ) n = some x.home ∧ f.bound? x.home n = some (some x.value) := by
  induction Γ generalizing i with
  | nil => cases found
  | cons L Γ ih =>
    obtain ⟨outer, here⟩ := linked
    rw [flat_cons, seek_append] at found
    cases own : seek n L.vars with
    | some p =>
      rw [own] at found
      cases found
      obtain ⟨ne, home, entry, -⟩ := here.home own
      exact ⟨ne, home, entry⟩
    | none =>
      replace found : seek n (flat Γ) = some (x, i) := by rwa [own] at found
      obtain ⟨ne, home, entry⟩ := ih outer found
      have free := here.free own (.inl (by rw [found]; exact Option.some_ne_none _))
      exact ⟨ne, by rw [ids_cons, homeIn_cons_of_not_binds free, home], entry⟩

/-- A known global is hidden by no scope. -/
theorem Linked.home_global (linked : Linked f G Γ) (none : seek n (flat Γ) = none) (known : G n) :
    homeIn f (ids Γ) n = homeIn f [0] n := by
  induction Γ with
  | nil => rfl
  | cons L Γ ih =>
    obtain ⟨outer, here⟩ := linked
    rw [flat_cons, seek_append_eq_none] at none
    rw [ids_cons, homeIn_cons_of_not_binds (here.free none.1 (.inr known)), ih outer none.2]

theorem homeIn_mem {is : List Nat} (home : homeIn f is n = some h) :
    h ∈ is ∧ f.binds h n = true := by
  have bound := List.find?_some home
  exact ⟨List.mem_of_find?_eq_some home, bound⟩

/-- The home of a variable is the scope of a layer. -/
theorem Linked.home_mem (linked : Linked f G Γ) (found : seek n (flat Γ) = some (x, i)) :
    x.home ∈ Γ.map Layer.scope := by
  obtain ⟨ne, home, -⟩ := linked.home found
  rcases List.mem_append.mp (homeIn_mem home).1 with mem | mem
  · exact mem
  · exact absurd (List.mem_singleton.mp mem) ne

/-! ### Changes of scopes -/

theorem homeIn_congr {is : List Nat} (same : ∀ i ∈ is, f'.binds i n = f.binds i n) :
    homeIn f' is n = homeIn f is n := by
  induction is with
  | nil => rfl
  | cons i is ih =>
    rw [homeIn, homeIn, List.find?_cons, List.find?_cons, same i List.mem_cons_self]
    split
    · rfl
    · exact ih fun j mem => same j (List.mem_cons_of_mem _ mem)

/-- Only the scopes of the layers matter, and in them only the variables that are known. -/
theorem Linked.congr (linked : Linked f G Γ)
    (around : ∀ i ∈ Γ.map Layer.scope, f'.around? i = f.around? i)
    (binds : ∀ i ∈ ids Γ, ∀ n, f'.binds i n = f.binds i n)
    (entry : ∀ n, seek n (flat Γ) ≠ none → ∀ i ∈ Γ.map Layer.scope, f'.bound? i n = f.bound? i n) :
    Linked f' G Γ := by
  induction Γ with
  | nil => trivial
  | cons L Γ ih =>
    obtain ⟨outer, here⟩ := linked
    have own := binds L.scope List.mem_cons_self
    refine ⟨?_, ?_⟩
    · refine ih outer (fun i mem => around i (List.mem_cons_of_mem _ mem))
        (fun i mem => binds i (List.mem_cons_of_mem _ mem)) ?_
      intro n known i mem
      refine entry n ?_ i (List.mem_cons_of_mem _ mem)
      rw [flat_cons, Ne, seek_append_eq_none]
      exact fun none => known none.2
    · refine ⟨(around _ List.mem_cons_self).trans here.around, here.deeper, ?_, ?_, ?_⟩
      · intro loop n bound
        rw [own] at bound
        exact here.again loop n bound
      · intro loop n bound
        rw [own] at bound
        exact here.once loop n bound
      · intro n x i found
        obtain ⟨ne, home, value, hides⟩ := here.home found
        have known : seek n (flat (L :: Γ)) = some (x, i + (flat Γ).length) := by
          rw [flat_cons, seek_append, found]
        refine ⟨ne, ?_, ?_, hides⟩
        · rw [homeIn_congr fun i mem => binds i mem n, home]
        · rw [entry n (by simp [known]) _ (Linked.home_mem ⟨outer, here⟩ known), value]

/-- Layers whose scopes are the same as before. -/
theorem Linked.congr_scopes (linked : Linked f G Γ)
    (scopes : ∀ i ∈ Γ.map Layer.scope, f'.scopes[i]? = f.scopes[i]?)
    (root : ∀ n, f'.binds 0 n = f.binds 0 n) : Linked f' G Γ := by
  refine linked.congr ?_ ?_ ?_
  · intro i mem
    rw [Forest.around?, Forest.around?, scopes i mem]
  · intro i mem n
    rcases List.mem_append.mp mem with mem | mem
    · exact Forest.binds_congr (scopes i mem) n
    · rw [List.mem_singleton.mp mem]
      exact root n
  · intro n _ i mem
    rw [Forest.bound?, Forest.bound?, scopes i mem]

/-- A change of another variable. -/
theorem Linked.set (linked : Linked f G Γ) (bound : f.binds h n = true)
    (other : seek n (flat Γ) = none ∨ h ∉ Γ.map Layer.scope) :
    Linked (f.setLocal h n (some v)) G Γ := by
  refine linked.congr (fun i _ => f.around?_setLocal h n _ i)
    (fun i _ n' => Forest.binds_setLocal_of_binds bound _ i n') ?_
  intro n' known i mem
  rw [Forest.bound?_setLocal (Forest.lt_size_of_binds bound), if_neg]
  rintro ⟨rfl, rfl⟩
  rcases other with none | away
  · exact known none
  · exact away mem

theorem seek_setFirst_eq_none {n' : String} :
    seek n' (setFirst n v xs) = none ↔ seek n' xs = none := by
  rw [seek_setFirst, Option.map_eq_none_iff]

/-- The variable that changes is one of the layer. -/
theorem LayerOk.assign_own (here : LayerOk f G L Γ) (own : seek n L.vars = some (x, i)) :
    LayerOk (f.setLocal x.home n (some v)) G { L with vars := setFirst n v L.vars } Γ := by
  have bound := (homeIn_mem (here.home own).2.1).2
  have binds := Forest.binds_setLocal_of_binds bound (some v)
  refine ⟨(f.around?_setLocal _ _ _ _).trans here.around, here.deeper, ?_, ?_, ?_⟩
  · intro loop n' bound'
    rw [binds] at bound'
    exact here.again loop n' bound'
  · intro loop n' bound'
    rw [binds] at bound'
    rw [Ne, seek_setFirst_eq_none]
    exact here.once loop n' bound'
  · intro n' y j found
    rw [seek_setFirst] at found
    obtain ⟨⟨z, k⟩, found', eq⟩ := Option.map_eq_some_iff.mp found
    obtain ⟨ne, home, value, hides⟩ := here.home found'
    rw [homeIn_congr fun i _ => binds i n', Forest.bound?_setLocal (Forest.lt_size_of_binds bound)]
    by_cases same : n = n'
    · subst same
      rw [own] at found'
      cases found'
      rw [if_pos rfl] at eq
      cases eq
      exact ⟨ne, home, by simp, hides⟩
    · rw [if_neg same] at eq
      cases eq
      rw [if_neg fun both => same both.2]
      exact ⟨ne, home, value, hides⟩

/-- The variable that changes is one of an outer layer. -/
theorem LayerOk.assign_outer (here : LayerOk f G L Γ) (own : seek n L.vars = none)
    (bound : f.binds h n = true) :
    LayerOk (f.setLocal h n (some v)) G L (Simulation.assign n v Γ) := by
  have binds := Forest.binds_setLocal_of_binds bound (some v)
  have alike := alike_assign n v Γ
  have ids : ids (L :: Simulation.assign n v Γ) = ids (L :: Γ) := congrArg (L.scope :: ·) alike.ids
  have none : ∀ n', seek n' (flat (Simulation.assign n v Γ)) = none ↔ seek n' (flat Γ) = none := by
    intro n'
    rw [flat_assign, seek_setFirst_eq_none]
  refine ⟨?_, alike.top ▸ here.deeper, ?_, ?_, ?_⟩
  · rw [f.around?_setLocal, alike.top]
    exact here.around
  · intro loop n' bound'
    rw [binds] at bound'
    rw [none]
    exact here.again loop n' bound'
  · intro loop n' bound'
    rw [binds] at bound'
    exact here.once loop n' bound'
  · intro n' y j found
    have other : n ≠ n' := by
      rintro rfl
      rw [own] at found
      cases found
    obtain ⟨ne, home, value, hides⟩ := here.home found
    rw [ids, homeIn_congr fun i _ => binds i n',
      Forest.bound?_setLocal (Forest.lt_size_of_binds bound), if_neg fun both => other both.2]
    exact ⟨ne, home, value, fun known => hides fun old => known ((none n').mpr old)⟩

theorem Linked.scope_le_top (linked : Linked f G Γ) (mem : i ∈ Γ.map Layer.scope) : i ≤ top Γ := by
  induction Γ with
  | nil => cases mem
  | cons L Γ ih =>
    rcases List.mem_cons.mp mem with rfl | mem
    · exact Nat.le_refl _
    · exact Nat.le_of_lt (Nat.lt_of_le_of_lt (ih linked.1 mem) linked.2.deeper)

/-- The newest variable with a name is changed in its home and in its layer. -/
theorem Linked.assign (linked : Linked f G Γ) (found : seek n (flat Γ) = some (x, i)) (v : Value) :
    Linked (f.setLocal x.home n (some v)) G (assign n v Γ) := by
  induction Γ generalizing i with
  | nil => cases found
  | cons L Γ ih =>
    have bound := (homeIn_mem (linked.home found).2.1).2
    obtain ⟨outer, here⟩ := linked
    rw [flat_cons, seek_append] at found
    rw [Simulation.assign]
    cases own : seek n L.vars with
    | some p =>
      rw [own] at found
      cases found
      refine ⟨outer.set bound ?_, here.assign_own own⟩
      -- A variable that hides an outer one is kept in the scope of its own layer.
      cases hidden : seek n (flat Γ) with
      | none => exact .inl rfl
      | some q =>
        have home := (here.home own).2.2.2 (by rw [hidden]; exact Option.some_ne_none _)
        refine .inr fun mem => ?_
        have le := outer.scope_le_top mem
        have lt := here.deeper
        omega
    | none =>
      replace found : seek n (flat Γ) = some (x, i) := by rwa [own] at found
      exact ⟨ih outer found, here.assign_outer own bound⟩

/-- A change of a scope that is none of the layers'. -/
theorem Linked.set_away {o : Option Value} (linked : Linked f G Γ) (away : h ∉ ids Γ) :
    Linked (f.setLocal h n o) G Γ := by
  have scopes : ∀ i ∈ ids Γ, (f.setLocal h n o).scopes[i]? = f.scopes[i]? := by
    intro i mem
    exact f.scopes_setLocal_of_ne n o fun eq => away (eq ▸ mem)
  exact linked.congr_scopes (fun i mem => scopes i (List.mem_append_left _ mem))
    (Forest.binds_congr (scopes 0 (List.mem_append_right _ List.mem_cons_self)))

/-- Where a new variable of the innermost layer goes: to the scope of the layer, or to where its
name was bound before although it was not known. -/
inductive Place (f : Forest Value Closure) (G : String → Prop) (L : Layer) (Γ : List Layer)
    (n : String) : Nat → Prop where
  | own : (L.loop = true → seek n (flat Γ) = none ∧ ¬ G n) → Place f G L Γ n L.scope
  | old {h : Nat} : h ≠ 0 → homeIn f (ids (L :: Γ)) n = some h → seek n (flat (L :: Γ)) = none →
      Place f G L Γ n h

theorem LayerOk.hold (here : LayerOk f G L Γ) (place : Place f G L Γ n h) (v : Value) :
    LayerOk (f.setLocal h n (some v)) G { L with vars := ⟨n, h, v⟩ :: L.vars } Γ := by
  have lt : h < f.scopes.size := by
    cases place with
    | own => exact Forest.lt_size_of_around here.around
    | old _ home => exact Forest.lt_size_of_binds (homeIn_mem home).2
  have binds : ∀ j n', (f.setLocal h n (some v)).binds j n' =
      (decide (h = j ∧ n = n') || f.binds j n') := Forest.binds_setLocal lt (some v)
  refine ⟨(f.around?_setLocal _ _ _ _).trans here.around, here.deeper, ?_, ?_, ?_⟩
  · intro loop n' bound
    rw [binds, Bool.or_eq_true, decide_eq_true_eq] at bound
    rcases bound with ⟨scope, rfl⟩ | bound
    · cases place with
      | own fresh => exact fresh loop
      | old _ home => exact here.again loop n (scope ▸ (homeIn_mem home).2)
    · exact here.again loop n' bound
  · intro loop n' bound
    rw [binds, Bool.or_eq_true, decide_eq_true_eq] at bound
    by_cases same : n = n'
    · simp [seek, same]
    · rw [seek, if_neg same]
      exact here.once loop n' (bound.resolve_left fun both => same both.2)
  · intro n' y j found
    rw [seek] at found
    rw [Forest.bound?_setLocal lt]
    split at found
    · rename_i same
      cases same
      cases found
      rw [if_pos ⟨rfl, rfl⟩]
      cases place with
      | own =>
        refine ⟨Nat.ne_zero_of_lt here.deeper, homeIn_cons_of_binds ?_, rfl, fun _ => rfl⟩
        simp [binds]
      | old ne home none =>
        rw [homeIn_congr fun i _ => Forest.binds_setLocal_of_binds (homeIn_mem home).2 _ i n]
        rw [flat_cons, seek_append_eq_none] at none
        exact ⟨ne, home, rfl, fun known => absurd none.2 known⟩
    · rename_i other
      obtain ⟨ne, home, value, hides⟩ := here.home found
      rw [if_neg fun both => other both.2, homeIn_congr fun i _ => ?_]
      · exact ⟨ne, home, value, hides⟩
      · rw [binds, decide_eq_false fun both => other both.2, Bool.false_or]

theorem Linked.hold (linked : Linked f G (L :: Γ)) (place : Place f G L Γ n h) (v : Value) :
    Linked (f.setLocal h n (some v)) G ({ L with vars := ⟨n, h, v⟩ :: L.vars } :: Γ) := by
  obtain ⟨outer, here⟩ := linked
  refine ⟨?_, here.hold place v⟩
  cases place with
  | own =>
    apply outer.set_away
    intro mem
    have deeper := here.deeper
    rcases List.mem_append.mp mem with mem | mem
    · have le := outer.scope_le_top mem
      omega
    · have zero := List.mem_singleton.mp mem
      omega
  | old _ home none =>
    rw [flat_cons, seek_append_eq_none] at none
    exact outer.set (homeIn_mem home).2 (.inl none.2)

/-- A new layer with a new scope. -/
theorem Linked.enter (linked : Linked f G Γ) (root : f.around? 0 = some none) (loop : Bool) :
    Linked (f.child (top Γ)).2 G (⟨f.scopes.size, loop, []⟩ :: Γ) := by
  have chain := linked.chain root
  have scopes : ∀ i ∈ ids Γ, (f.child (top Γ)).2.scopes[i]? = f.scopes[i]? := fun i mem =>
    Forest.scopes_child_of_lt (chain.lt_size i mem)
  have own := f.scopes_child_size (top Γ)
  have none : ∀ n, (f.child (top Γ)).2.binds f.scopes.size n = false := by
    intro n
    rw [Forest.binds, Forest.bound?, own]
    rfl
  refine ⟨linked.congr_scopes (fun i mem => scopes i (List.mem_append_left _ mem))
    (Forest.binds_congr (scopes 0 (List.mem_append_right _ List.mem_cons_self))), ?_⟩
  refine ⟨?_, ?_, ?_, ?_, fun found => by cases found⟩
  · rw [Forest.around?, own]
    rfl
  · obtain ⟨is, eq⟩ := ids_eq_top Γ
    exact chain.lt_size _ (eq ▸ List.mem_cons_self)
  · intro _ n bound
    rw [none] at bound
    cases bound
  · intro _ n bound
    rw [none] at bound
    cases bound

/-- After a round of a loop its variables are no longer known. -/
theorem Linked.forget (linked : Linked f G (L :: Γ)) (loop : L.loop = true) :
    Linked f G ({ L with vars := [] } :: Γ) :=
  ⟨linked.1, linked.2.around, linked.2.deeper, linked.2.again,
    fun once => absurd (loop.symm.trans once) (by decide), fun found => by cases found⟩

end ScriptLang.Simulation
