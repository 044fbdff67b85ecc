import ScriptLang.Proofs.Code.Labels
import ScriptLang.Proofs.Machine.Stepping

/-!
Starting a program.

The machine finds every label where it is set last. Compiled code has only instructions that the
machine knows, so a start never fails.
-/

namespace ScriptLang.Machine

open Compiler (labelOf?)

/-- An instruction is one of the machine's. -/
def known : Instr → Bool
  | .other _ => false
  | _ => true

/-- The place of a text after another one was stored. -/
theorem lookup?_put_text (t : Labels) (name name' : String) (n : Nat) :
    (t.put name n).lookup? name' = if name = name' then some n else t.lookup? name' := by
  induction t with
  | nil => simp [Labels.put, Labels.lookup?, Label.same]
  | cons entry rest ih =>
    obtain ⟨l, k⟩ := entry
    cases l with
    | other d =>
      simp only [Labels.put, Labels.lookup?, Label.same, ih, Bool.false_eq_true, if_false]
    | text old =>
      by_cases here : old = name
      · subst here
        by_cases h : old = name' <;> simp [Labels.put, Labels.lookup?, Label.same, h]
      · by_cases h : old = name'
        · subst h
          simp [Labels.put, Labels.lookup?, Label.same, here, Ne.symm here]
        · simp [Labels.put, Labels.lookup?, Label.same, here, h, ih]

/-- A label that is no text hides no text. -/
theorem lookup?_put_other (t : Labels) (d : Datum) (name : String) (n : Nat) :
    (t.put (.other d) n).lookup? name = t.lookup? name := by
  induction t with
  | nil => rfl
  | cons entry rest ih =>
    obtain ⟨l, k⟩ := entry
    rw [Labels.put]
    cases same : l.same (.other d) with
    | false => simp only [Bool.false_eq_true, if_false, Labels.lookup?, ih]
    | true =>
      cases l with
      | text old => cases same
      | other e => rfl

/-- A table after the label that an instruction sets, if any, was stored. -/
def noteLabel (n : Nat) (t : Labels) : Instr → Labels
  | .label label => t.put label n
  | _ => t

/-- The labels of a program from instruction `n` on, stored in a table. -/
def labelTable (n : Nat) : List Instr → Labels → Labels
  | [], t => t
  | i :: rest, t => labelTable (n + 1) rest (noteLabel n t i)

theorem lookup?_noteLabel {i : Instr} {name : String} (n : Nat) (t : Labels)
    (other : labelOf? i ≠ some name) : (noteLabel n t i).lookup? name = t.lookup? name := by
  cases i with
  | label label =>
    cases label with
    | text name' =>
      have apart : name' ≠ name := fun same => other (congrArg some same)
      exact (lookup?_put_text t name' name n).trans (if_neg apart)
    | other d => exact lookup?_put_other t d name n
  | _ => rfl

theorem collectLabels_eq {code : List Instr} (n : Nat) (all : ∀ i ∈ code, known i = true)
    (m : Machine) :
    collectLabels n code m = .ok () { m with labels := labelTable n code m.labels } := by
  induction code generalizing n m with
  | nil => rfl
  | cons i rest ih =>
    obtain ⟨first, others⟩ := List.forall_mem_cons.mp all
    cases i with
    | label name => exact ih (n + 1) others _
    | other items => simp [known] at first
    | _ => exact ih (n + 1) others m

theorem lookup?_labelTable_of_not_mem {code : List Instr} {name : String} (n : Nat) (t : Labels)
    (absent : name ∉ code.filterMap labelOf?) :
    (labelTable n code t).lookup? name = t.lookup? name := by
  induction code generalizing n t with
  | nil => rfl
  | cons i rest ih =>
    simp only [List.mem_filterMap, not_exists, not_and] at absent ih
    rw [labelTable, ih _ _ fun j mem => absent j (List.mem_cons_of_mem _ mem)]
    exact lookup?_noteLabel n t (absent i List.mem_cons_self)

/-- A label is found where it is set last. -/
theorem lookup?_labelTable {code : List Instr} {name : String} {a : Nat} (n : Nat) (t : Labels)
    (place : code[a]? = some (.label name))
    (last : name ∉ (code.drop (a + 1)).filterMap labelOf?) :
    (labelTable n code t).lookup? name = some (n + a) := by
  induction code generalizing n t a with
  | nil => simp at place
  | cons i rest ih =>
    rw [labelTable]
    cases a with
    | zero =>
      obtain rfl : i = .label name := by simpa using place
      have absent : name ∉ rest.filterMap labelOf? := last
      rw [lookup?_labelTable_of_not_mem _ _ absent, noteLabel, lookup?_put_text, if_pos rfl]
      rfl
    | succ a =>
      rw [ih (n + 1) _ (by simpa using place) last, Nat.add_right_comm, Nat.add_assoc]

/-- What is shown once is not shown again later. -/
theorem not_mem_later {α β : Type} [BEq β] [LawfulBEq β] {view : α → Option β} {xs : List α}
    {a : Nat} {x : α} {y : β} (place : xs[a]? = some x) (shown : view x = some y)
    (once : (xs.filterMap view).count y ≤ 1) : y ∉ (xs.drop (a + 1)).filterMap view := by
  intro later
  obtain ⟨lt, eq⟩ := List.getElem?_eq_some_iff.mp place
  rw [← List.take_append_drop a xs, List.drop_eq_getElem_cons lt, eq, List.filterMap_append,
    List.filterMap_cons_some shown, List.count_append, List.count_cons_self] at once
  have pos := List.count_pos_iff.mpr later
  omega

/-! ### Compiled code -/

open Compiler (Emits Part)

variable {c c' : Compiler}

/-- An instruction is one of the machine's, and its label, if it has one, is a text. -/
def textual : Instr → Bool
  | .label (.other _) | .jump (.other _) | .jumpIfZero (.other _) | .enter (.other _)
  | .other _ => false
  | _ => true

theorem known_of_textual {i : Instr} (h : textual i = true) : known i = true := by
  cases i with
  | other items => cases h
  | _ => rfl

/-- All instructions of a state of the compiler are textual. -/
def AllTextual (c : Compiler) : Prop := ∀ i ∈ c.code, textual i = true

theorem AllTextual.add {i : Instr} (h : AllTextual c) (here : textual i = true) :
    AllTextual (c.add i) := by
  intro j mem
  rcases Array.mem_push.mp mem with mem | rfl
  · exact h j mem
  · exact here

theorem AllTextual.closed (h : AllTextual c) : AllTextual c.closed := by
  intro j mem
  rcases Array.mem_append.mp mem with mem | mem
  · exact h j mem
  · rw [(Array.mem_replicate.mp mem).2]
    rfl

theorem AllTextual.withParams (h : AllTextual c) (ps : List Param) :
    AllTextual (c.withParams ps) := by
  induction ps generalizing c with
  | nil => exact h
  | cons p ps ih => exact ih (AllTextual.add (c := { c with locals := _ }) h rfl)

theorem allTextual_of_emits {p : Part} (h : Emits p c c') (all : AllTextual c) : AllTextual c' := by
  induction h with
  | integer | real | bool | text => exact all.add rfl
  | name loads =>
    cases loads with
    | global | loc => exact all.add rfl
  | binary _ _ _ ih ih' | logical _ _ _ ih ih' => exact (ih' (ih all)).add rfl
  | minus _ _ ih | print _ ih | println _ _ ih | callStmt _ ih | ret _ ih => exact (ih all).add rfl
  | tilde _ _ ih | call _ _ _ ih => exact ((ih all).add rfl).add rfl
  | plus _ _ ih | group _ ih => exact ih all
  | noExprs | noElse | count | noStmts => exact all
  | moreExprs _ _ ih ih' | moreStmts _ _ ih ih' => exact ih' (ih all)
  | branch _ _ _ ih ih₁ ih₂ =>
    have body := ih₁ (((ih all).add (c := Compiler.takeLabels _ 3) rfl).add rfl)
    exact (ih₂ ((body.closed.add rfl).add rfl)).add rfl
  | orElse _ ih => exact (ih all).closed
  | @loop _ _ _ c _ _ _ _ ih ih₁ =>
    have body := ih₁ (((ih (AllTextual.add (c := c.takeLabels 3) all rfl)).add rfl).add rfl)
    exact (body.closed.add rfl).add rfl
  | assign _ _ stores ih =>
    cases stores with
    | newGlobal | newLocal | global | loc => exact (ih all).add rfl
  | assignLocal _ _ ih => exact (ih all).add rfl
  | @func name ps _ _ c _ _ _ _ ih =>
    have head : AllTextual (c.funcStart name ps.length).opened :=
      (AllTextual.add (c := (c.declared name ps.length).takeLabels 1) all rfl).add rfl
    exact (((ih (head.withParams ps)).closed.add rfl).add rfl).add rfl

/-! ### Whole programs -/

/-- The table has every label where it is set. -/
def Located (code : Array Instr) (labels : Labels) : Prop :=
  ∀ {a : Nat} {l : String}, code[a]? = some (.label l) → labels.lookup? l = some a

/-- A fresh machine before the first instruction of a program. -/
def started (code : Array Instr) : Machine :=
  { empty with running := true, labels := labelTable 0 code.toList [] }

open Compiler (first Layered TopLabels)

theorem layered_first : Layered first :=
  ⟨Int.le_refl _, by simp [first, Compiler.add, Compiler.empty],
    by simp [first, Compiler.add, Compiler.empty]⟩

theorem topLabels_first : TopLabels first :=
  ⟨by simp [Compiler.labelsSet, first, Compiler.add, Compiler.empty, labelOf?],
    by simp [Compiler.labelsSet, first, Compiler.add, Compiler.empty, labelOf?],
    by simp [first, Compiler.add, Compiler.empty]⟩

theorem allTextual_compiled {ss : List Stmt} (h : Emits (.stmts ss) first c) :
    AllTextual (c.add .halt) :=
  (allTextual_of_emits h (AllTextual.add (c := Compiler.empty) nofun rfl)).add rfl

/-- Compiled code starts on every machine. -/
theorem start_emits {ss : List Stmt} (h : Emits (.stmts ss) first c) (m : Machine) :
    start (c.add .halt).code.toList m = .ok () { m with
      pc := 0, sp := 0, running := true, labels := labelTable 0 (c.add .halt).code.toList [] } := by
  refine collectLabels_eq 0 (fun i mem => ?_) _
  exact known_of_textual (allTextual_compiled h i (Array.mem_toList_iff.mp mem))

/-- A label that is set once is found where it is set. -/
theorem located_of_nodup {c : Compiler} (once : c.labelsSet.Nodup) :
    Located c.code (started c.code).labels := by
  intro a l place
  rw [← Array.getElem?_toList] at place
  have last : l ∉ (c.code.toList.drop (a + 1)).filterMap labelOf? :=
    not_mem_later place rfl (List.nodup_iff_count.mp once l)
  exact (lookup?_labelTable 0 [] place last).trans (congrArg some (Nat.zero_add a))

/-- Compiled code with functions at top level starts, and its labels are found. -/
theorem start_compiled {ss : List Stmt} (h : Emits (.stmts ss) first c)
    (onTop : ss.all (Stmt.allInside fun s => !s.isFunc) = true)
    (free : ∀ name ∈ ss.filterMap Stmt.funcName?, Compiler.Unreserved name) :
    start (c.add .halt).code.toList empty = .ok () (started (c.add .halt).code) ∧
      Located (c.add .halt).code (started (c.add .halt).code).labels := by
  constructor
  · exact start_emits h empty
  · apply located_of_nodup
    rw [Compiler.labelsSet_add]
    simpa [labelOf?] using (h.topLabels layered_first rfl onTop free topLabels_first).nodup

end ScriptLang.Machine
