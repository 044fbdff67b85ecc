import ScriptLang.Proofs.Code.Growth
import ScriptLang.Proofs.Code.Symbols
import ScriptLang.Proofs.Tree.Shape

/-!
Labels of compiled code.

Numbered labels are made in order but are set where a jump needs them, so the numbers of the labels
that a part sets lie in an interval without being sorted (`Fresh`). With functions at top level
only, no label is set twice in a whole program (`TopLabels`), unless a function bears a name that is
kept for labels.
-/

namespace ScriptLang.Compiler

variable {c c₁ c₂ c' : Compiler}

theorem labelName_inj {m n : Nat} (h : labelName m = labelName n) : m = n := by
  have digits : (toString m).toList = (toString n).toList := by
    have chars := congrArg String.toList h
    simp only [labelName, String.toList_append] at chars
    exact List.append_cancel_left chars
  simp only [Nat.toString_eq_repr, Nat.repr_eq_ofList_toDigits, String.toList_ofList] at digits
  exact Nat.ofDigitChars_ten_toDigits.symm.trans (digits ▸ Nat.ofDigitChars_ten_toDigits)

/-! ### Views of code -/

/-- What the instructions of a state show under a view, in order. -/
def seen (view : Instr → Option String) (c : Compiler) : List String :=
  c.code.toList.filterMap view

section Views

variable {view : Instr → Option String}

theorem seen_add (c : Compiler) (i : Instr) :
    seen view (c.add i) = seen view c ++ (view i).toList := by
  cases shown : view i <;> simp [seen, add, shown]

theorem seen_add_none {i : Instr} (hidden : view i = none) : seen view (c.add i) = seen view c := by
  rw [seen_add, hidden, Option.toList, List.append_nil]

theorem seen_closed (pop : view .pop = none) (c : Compiler) : seen view c.closed = seen view c := by
  simp [seen, closed, pop]

theorem seen_withParams (slot : ∀ d, view (.setSlot d) = none) (c : Compiler) (ps : List Param) :
    seen view (c.withParams ps) = seen view c := by
  induction ps generalizing c with
  | nil => rfl
  | cons p ps ih => exact (ih _).trans (seen_add_none (slot _))

end Views

/-! ### Numbered labels -/

/-- The name of the label that an instruction sets. -/
def labelOf? : Instr → Option String
  | .label (.text name) => some name
  | _ => none

/-- The labels that are set in a state, in order. -/
def labelsSet (c : Compiler) : List String := c.code.toList.filterMap labelOf?

theorem labelsSet_add (c : Compiler) (i : Instr) :
    (c.add i).labelsSet = c.labelsSet ++ (labelOf? i).toList :=
  seen_add c i

/-- Between two states just labels with numbers in `S` have been set, each of them once. -/
def Fresh (S : Nat → Prop) (c c' : Compiler) : Prop :=
  ∃ ks : List Nat, c'.labelsSet = c.labelsSet ++ ks.map labelName ∧ ks.Nodup ∧ ∀ k ∈ ks, S k

theorem Fresh.none {S : Nat → Prop} (same : c'.labelsSet = c.labelsSet) : Fresh S c c' :=
  ⟨[], by simp [same], List.nodup_nil, by simp⟩

theorem Fresh.mono {S T : Nat → Prop} (h : Fresh S c c') (sub : ∀ k, S k → T k) : Fresh T c c' := by
  obtain ⟨ks, eq, nodup, all⟩ := h
  exact ⟨ks, eq, nodup, fun k mem => sub k (all k mem)⟩

theorem Fresh.trans {S T : Nat → Prop} (h : Fresh S c c₁) (h' : Fresh T c₁ c₂)
    (apart : ∀ k, S k → ¬ T k) : Fresh (fun k => S k ∨ T k) c c₂ := by
  obtain ⟨ks, eq, nodup, all⟩ := h
  obtain ⟨ks', eq', nodup', all'⟩ := h'
  refine ⟨ks ++ ks', by simp [eq, eq'], ?_, ?_⟩
  · refine List.nodup_append.mpr ⟨nodup, nodup', ?_⟩
    rintro a mem _ mem' rfl
    exact apart a (all a mem) (all' a mem')
  · intro k mem
    exact (List.mem_append.mp mem).imp (all k) (all' k)

theorem Fresh.add {S : Nat → Prop} {i : Instr} (h : Fresh S c c₁)
    (plain : labelOf? i = Option.none) :
    Fresh S c (c₁.add i) := by
  obtain ⟨ks, eq, rest⟩ := h
  exact ⟨ks, by simp [labelsSet_add, plain, eq], rest⟩

theorem Fresh.label {S : Nat → Prop} {k : Nat} (h : Fresh S c c₁) (new : ¬ S k) :
    Fresh (fun j => S j ∨ j = k) c (c₁.add (.label (labelName k))) := by
  refine h.trans ⟨[k], by simp [labelsSet_add, labelOf?], by simp, by simp⟩ ?_
  rintro _ mem rfl
  exact new mem

/-- Between two states labels have been made, and of these each has been set at most once. -/
def Numbered (c c' : Compiler) : Prop :=
  c.labels ≤ c'.labels ∧ Fresh (fun k => c.labels < k ∧ k ≤ c'.labels) c c'

theorem Numbered.none (labels : c'.labels = c.labels) (same : c'.labelsSet = c.labelsSet) :
    Numbered c c' :=
  ⟨Nat.le_of_eq labels.symm, .none same⟩

theorem Numbered.trans (h : Numbered c c₁) (h' : Numbered c₁ c₂) : Numbered c c₂ := by
  obtain ⟨le, fresh⟩ := h
  obtain ⟨le', fresh'⟩ := h'
  exact ⟨Nat.le_trans le le', (fresh.trans fresh' (by omega)).mono (by omega)⟩

theorem Numbered.add {i : Instr} (h : Numbered c c₁) (plain : labelOf? i = Option.none) :
    Numbered c (c₁.add i) :=
  ⟨h.1, h.2.add plain⟩

theorem labelsSet_closed (c : Compiler) : c.closed.labelsSet = c.labelsSet :=
  seen_closed rfl c

theorem labelsSet_withParams (c : Compiler) (ps : List Param) :
    (c.withParams ps).labelsSet = c.labelsSet :=
  seen_withParams (fun _ => rfl) c ps

theorem labels_withParams (c : Compiler) (ps : List Param) :
    (c.withParams ps).labels = c.labels := by
  induction ps generalizing c with
  | nil => rfl
  | cons p ps ih => exact ih _

theorem functions_withParams (c : Compiler) (ps : List Param) :
    (c.withParams ps).functions = c.functions := by
  induction ps generalizing c with
  | nil => rfl
  | cons p ps ih => exact ih _

theorem Numbered.closed (h : Numbered c c₁) : Numbered c c₁.closed :=
  ⟨h.1, by
    obtain ⟨ks, eq, rest⟩ := h.2
    exact ⟨ks, by rw [labelsSet_closed, eq], rest⟩⟩

/-- The labels that a part without functions sets. -/
theorem Emits.numbered {p : Part} (h : Emits p c c') (inner : p.All fun s => !s.isFunc) :
    Numbered c c' := by
  induction h with
  | integer | real | bool | text => exact (Numbered.none rfl rfl).add rfl
  | name loads =>
    cases loads with
    | global | loc => exact (Numbered.none rfl rfl).add rfl
  | binary _ _ _ ih ih' | logical _ _ _ ih ih' => exact ((ih trivial).trans (ih' trivial)).add rfl
  | minus _ _ ih => exact (ih trivial).add rfl
  | tilde _ _ ih | call _ _ _ ih => exact ((ih trivial).add rfl).add rfl
  | plus _ _ ih | group _ ih => exact ih trivial
  | noExprs | noElse | count | noStmts => exact .none rfl rfl
  | moreExprs _ _ ih ih' => exact (ih trivial).trans (ih' trivial)
  | print _ ih | println _ _ ih | callStmt _ ih | ret _ ih => exact (ih trivial).add rfl
  | @branch test b o line c c₁ c₂ c₃ _ _ _ ih ih₁ ih₂ =>
    simp only [Part.All, Stmt.all, Bool.and_eq_true, Block.all_eq] at inner
    obtain ⟨le, tested⟩ := ih trivial
    have le₁ : c₁.labels + 3 ≤ c₂.labels := (ih₁ inner.1.2).1
    have le₂ : c₂.labels ≤ c₃.labels := (ih₂ inner.2).1
    have body : Fresh (fun k => c₁.labels + 3 < k ∧ k ≤ c₂.labels) c₁.thenStart c₂.closed :=
      (ih₁ inner.1.2).closed.2
    have other : Fresh (fun k => c₂.labels < k ∧ k ≤ c₃.labels)
      (c₂.closed.elseStart c₁.labels) c₃ := (ih₂ inner.2).2
    have atThen : Fresh _ c c₁.thenStart := (tested.add rfl).label (by omega)
    have atElse : Fresh _ c (c₂.closed.elseStart c₁.labels) :=
      ((atThen.trans body (by omega)).add rfl).label (by omega)
    have atEnd : Fresh _ c (c₃.ending (c₁.labels + 3)) :=
      (atElse.trans other (by omega)).label (by omega)
    have labels : (c₃.ending (c₁.labels + 3)).labels = c₃.labels := rfl
    exact ⟨by omega, atEnd.mono (by omega)⟩
  | orElse _ ih =>
    rw [Part.All, Block.allElse, Block.all_eq] at inner
    exact (ih inner).closed
  | @loop test b line c c₁ c₂ _ _ ih ih₁ =>
    simp only [Part.All, Stmt.all, Bool.and_eq_true, Block.all_eq] at inner
    have le : c.labels + 3 ≤ c₁.labels := (ih trivial).1
    have le₁ : c₁.labels ≤ c₂.labels := (ih₁ inner.2).1
    have tested : Fresh (fun k => c.labels + 3 < k ∧ k ≤ c₁.labels) c.loopStart c₁ :=
      (ih trivial).2
    have body : Fresh (fun k => c₁.labels < k ∧ k ≤ c₂.labels) (c₁.bodyStart c.labels)
        c₂.closed :=
      (ih₁ inner.2).closed.2
    have atTest : Fresh (fun k => k = c.labels + 1) c c.loopStart :=
      (Fresh.label (Fresh.none (S := fun _ => False) rfl) id).mono (by simp)
    have atBody : Fresh _ c (c₁.bodyStart c.labels) :=
      ((atTest.trans tested (by omega)).add rfl).label (by omega)
    have atEnd : Fresh _ c ((c₂.closed.goBack c.labels).ending (c.labels + 3)) :=
      ((atBody.trans body (by omega)).add rfl).label (by omega)
    have labels : ((c₂.closed.goBack c.labels).ending (c.labels + 3)).labels = c₂.labels := rfl
    exact ⟨by omega, atEnd.mono (by omega)⟩
  | assign _ _ stores ih =>
    cases stores with
    | newGlobal | newLocal | global | loc => exact (ih trivial).add rfl
  | assignLocal _ _ ih => exact (ih trivial).add rfl
  | func => simp [Part.All, Stmt.all, Stmt.isFunc] at inner
  | moreStmts _ _ ih ih' =>
    rw [Part.All, Stmt.allOf, Bool.and_eq_true] at inner
    exact (ih inner.1).trans (ih' inner.2)

/-! ### Whole programs -/

/-- A name that the compiler does not use for labels of its own. -/
def Unreserved (name : String) : Prop :=
  name ≠ "START" ∧ ∀ k, name ≠ labelName k

theorem start_ne_labelName (k : Nat) : "START" ≠ labelName k := by
  intro h
  have chars := congrArg (fun s => s.toList.head?) h
  simp [labelName] at chars

theorem unreserved_of_head {name : String} (start : name.toList.head? ≠ some 'S')
    (label : name.toList.head? ≠ some 'L') : Unreserved name := by
  constructor
  · rintro rfl
    exact start rfl
  · rintro k rfl
    exact label (by simp [labelName])

/-- The labels of a state at top level: each is set once, and those of functions are unreserved. -/
structure TopLabels (c : Compiler) : Prop where
  nodup : c.labelsSet.Nodup
  origin : ∀ l ∈ c.labelsSet,
    l = "START" ∨ (∃ k ≤ c.labels, l = labelName k) ∨ ∃ f ∈ c.functions, f.name = l
  free : ∀ f ∈ c.functions, Unreserved f.name

theorem TopLabels.numbered (h : TopLabels c) (numbered : Numbered c c')
    (functions : c'.functions = c.functions) : TopLabels c' := by
  obtain ⟨le, ks, eq, nodup, all⟩ := numbered
  refine ⟨?_, ?_, functions ▸ h.free⟩
  · rw [eq]
    refine List.nodup_append.mpr ⟨h.nodup, ?_, ?_⟩
    · exact List.Pairwise.map labelName (fun _ _ ne same => ne (labelName_inj same)) nodup
    · rintro l old _ new rfl
      obtain ⟨k, mem, rfl⟩ := List.mem_map.mp new
      rcases h.origin _ old with start | ⟨k', le', same⟩ | ⟨f, mem', name⟩
      · exact start_ne_labelName k start.symm
      · have := labelName_inj same
        have := (all k mem).1
        omega
      · exact (h.free f mem').2 k name
  · intro l mem
    rw [eq] at mem
    rcases List.mem_append.mp mem with old | new
    · rcases h.origin l old with start | ⟨k, le', same⟩ | func
      · exact .inl start
      · exact .inr (.inl ⟨k, Nat.le_trans le' le, same⟩)
      · exact .inr (.inr (functions ▸ func))
    · obtain ⟨k, mem', rfl⟩ := List.mem_map.mp new
      exact .inr (.inl ⟨k, (all k mem').2, rfl⟩)

/-- The label of a new function is new. -/
theorem TopLabels.declare {name : String} (h : TopLabels c) (arity : Nat)
    (new : c.funcSymbol? name = none) (free : Unreserved name) :
    TopLabels ((c.declared name arity).add (.label name)) := by
  have labels : ((c.declared name arity).add (.label name)).labelsSet = c.labelsSet ++ [name] :=
    labelsSet_add _ _
  refine ⟨?_, ?_, ?_⟩
  · rw [labels]
    refine List.nodup_append.mpr ⟨h.nodup, by simp, ?_⟩
    rintro l old _ mem rfl
    rw [List.mem_singleton] at mem
    subst mem
    rcases h.origin l old with start | ⟨k, -, same⟩ | ⟨f, mem, same⟩
    · exact free.1 start
    · exact free.2 k same
    · exact funcSymbol?_eq_none.mp new f mem same
  · intro l mem
    rw [labels] at mem
    rcases List.mem_append.mp mem with old | new
    · rcases h.origin l old with start | number | ⟨f, mem, same⟩
      · exact .inl start
      · exact .inr (.inl number)
      · exact .inr (.inr ⟨f, Array.mem_push_of_mem _ mem, same⟩)
    · rw [List.mem_singleton] at new
      exact .inr (.inr ⟨_, Array.mem_push_self, new.symm⟩)
  · intro f mem
    rcases Array.mem_push.mp mem with mem | rfl
    · exact h.free f mem
    · exact free

theorem TopLabels.func {name : String} {ps : List Param} (h : TopLabels c) (layered : Layered c)
    (new : c.funcSymbol? name = none) (free : Unreserved name)
    (grown : Grows ((c.funcStart name ps.length).opened.withParams ps) c₁)
    (body : Numbered ((c.funcStart name ps.length).opened.withParams ps) c₁) :
    TopLabels (c₁.closed.funcEnd.ending (c.labels + 1)) := by
  have functions : (c₁.closed.funcEnd.ending (c.labels + 1)).functions =
      ((c.declared name ps.length).add (.label name)).functions :=
    (closed_scope ((grows_funcStart c name ps.length).layered layered)
      ((grows_withParams _ ps).trans grown)).functions
  refine (h.declare ps.length new free).numbered ?_ functions
  have le : c.labels + 1 ≤ c₁.labels := by
    have le := body.1
    rw [labels_withParams] at le
    exact le
  have fresh : Fresh (fun k => c.labels + 1 < k ∧ k ≤ c₁.labels)
      ((c.declared name ps.length).add (.label name)) c₁.closed := by
    obtain ⟨ks, eq, nodup, all⟩ := body.closed.2
    rw [labelsSet_withParams] at eq
    rw [labels_withParams] at all
    have start : (c.funcStart name ps.length).opened.labelsSet =
        ((c.declared name ps.length).add (.label name)).labelsSet := by
      change (c.funcStart name ps.length).labelsSet = _
      rw [funcStart, labelsSet_add, labelsSet_add, labelsSet_add]
      simp [labelOf?, labelsSet, takeLabels]
    exact ⟨ks, start ▸ eq, nodup, all⟩
  have last : Fresh _ _ (c₁.closed.funcEnd.ending (c.labels + 1)) :=
    ((fresh.add rfl).add rfl).label (by omega)
  have labels : (c₁.closed.funcEnd.ending (c.labels + 1)).labels = c₁.labels := rfl
  have labels' : ((c.declared name ps.length).add (.label name)).labels = c.labels := rfl
  exact ⟨by omega, last.mono (by omega)⟩

/-- The labels of a program whose functions are at top level. -/
theorem Emits.topLabels {ss : List Stmt} (h : Emits (.stmts ss) c c') (layered : Layered c)
    (top : c.depth = 0) (onTop : ss.all (Stmt.allInside fun s => !s.isFunc) = true)
    (free : ∀ name ∈ ss.filterMap Stmt.funcName?, Unreserved name) (labels : TopLabels c) :
    TopLabels c' := by
  induction ss generalizing c with
  | nil =>
    cases h with
    | noStmts => exact labels
  | cons s ss ih =>
    cases h with
    | @moreStmts _ _ _ c₁ _ first rest =>
      rw [List.all_cons, Bool.and_eq_true] at onTop
      have grown := first.grown layered
      have next : TopLabels c₁ → TopLabels c' := ih rest (grown.layered layered)
        (grown.depth.trans top) onTop.2 fun name mem =>
          free name (by rw [List.filterMap_cons]; split <;> simp [mem])
      apply next
      cases func : s.isFunc with
      | false =>
        have all : s.all (fun s => !s.isFunc) = true := by
          rw [Stmt.all_eq, onTop.1, func]
          rfl
        exact labels.numbered (first.numbered all) ((first.kept layered).functions func)
      | true =>
        cases first with
        | func new _ body =>
          exact labels.func layered new (free _ (by simp [Stmt.funcName?]))
            (body.grown ((grows_withParams _ _).layered
              ((grows_funcStart _ _ _).layered layered).opened))
            (body.numbered (by rw [Part.All, ← Block.all_eq]; exact onTop.1))
        | _ => simp [Stmt.isFunc] at func

end ScriptLang.Compiler
