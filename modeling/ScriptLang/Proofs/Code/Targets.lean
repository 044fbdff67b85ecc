import ScriptLang.Proofs.Code.Labels
import ScriptLang.Proofs.Tree.Scoping

/-!
Targets of jumps and calls in compiled code.

The labels of a program are those that the compiler numbers, each set once, and one for each
declaration of a function, under the name of the function (`Emits.sets`). Jumps lead to numbered
labels. Calls lead to the name of a function that is in scope (`Emits.resolved`).
-/

namespace ScriptLang.Compiler

variable {c c₁ c₂ c' : Compiler} {ns ns' : List String}

/-- The label that an instruction may jump to. -/
def jumpOf? : Instr → Option String
  | .jump (.text name) | .jumpIfZero (.text name) => some name
  | _ => none

/-- The function that an instruction calls. -/
def callOf? : Instr → Option String
  | .enter (.text name) => some name
  | _ => none

/-! ### Labels -/

/-- The labels with numbers above `lo` up to `hi`. -/
def labelRange (lo hi : Nat) : List String := (List.range' (lo + 1) (hi - lo)).map labelName

theorem labelRange_append {lo mid hi : Nat} (le : lo ≤ mid) (le' : mid ≤ hi) :
    labelRange lo hi = labelRange lo mid ++ labelRange mid hi := by
  have split : hi - lo = (mid - lo) + (hi - mid) := by omega
  have start : mid + 1 = lo + 1 + (mid - lo) := by omega
  rw [labelRange, labelRange, labelRange, ← List.map_append, split, start, List.range'_append_1]

theorem labelRange_succ (n : Nat) : labelRange n (n + 1) = [labelName (n + 1)] := by
  simp [labelRange]

/-- The labels `ls` are those of a range of numbers, each once, and those of some names, and the
jumps `js` lead to labels of the range. -/
structure Owns (lo hi : Nat) (ns ls js : List String) : Prop where
  le : lo ≤ hi
  labels : ∀ l, ls.count l = (labelRange lo hi).count l + ns.count l
  jumps : ∀ j ∈ js, j ∈ labelRange lo hi

theorem owns_nil (n : Nat) : Owns n n [] [] [] :=
  ⟨Nat.le_refl n, by simp [labelRange], by simp⟩

/-- One label, with jumps to it. -/
theorem owns_one (n : Nat) : Owns n (n + 1) [] [labelName (n + 1)] [labelName (n + 1)] :=
  ⟨Nat.le_succ n, by simp [labelRange_succ], by simp [labelRange_succ]⟩

theorem Owns.append {lo mid hi : Nat} {ls ls' js js' : List String} (h : Owns lo mid ns ls js)
    (h' : Owns mid hi ns' ls' js') : Owns lo hi (ns ++ ns') (ls ++ ls') (js ++ js') := by
  have split := labelRange_append h.le h'.le
  refine ⟨Nat.le_trans h.le h'.le, fun l => ?_, fun j mem => ?_⟩
  · rw [split, List.count_append, List.count_append, List.count_append, h.labels, h'.labels]
    omega
  · rw [split, List.mem_append]
    exact (List.mem_append.mp mem).imp (h.jumps j) (h'.jumps j)

/-- Three labels, with jumps to them. -/
theorem owns_three (n : Nat) : Owns n (n + 3) []
    ([labelName (n + 1)] ++ [labelName (n + 2)] ++ [labelName (n + 3)])
    ([labelName (n + 1)] ++ [labelName (n + 2)] ++ [labelName (n + 3)]) :=
  ((owns_one n).append (owns_one (n + 1))).append (owns_one (n + 2))

/-- The order does not matter, a name may be added with its label, and jumps may be left out. -/
theorem Owns.rearrange {lo hi : Nat} {ls ls' js js' : List String} (h : Owns lo hi ns ls js)
    (labels : ∀ l, ls'.count l + ns.count l = ls.count l + ns'.count l) (jumps : js' ⊆ js) :
    Owns lo hi ns' ls' js' := by
  refine ⟨h.le, fun l => ?_, fun j mem => h.jumps j (jumps mem)⟩
  have before := h.labels l
  have after := labels l
  omega

/-- Between two states some labels have been set and some jumps added, in this order. -/
structure Puts (ls js : List String) (c c' : Compiler) : Prop where
  labels : c'.labelsSet = c.labelsSet ++ ls
  jumps : seen jumpOf? c' = seen jumpOf? c ++ js

theorem Puts.refl (c : Compiler) : Puts [] [] c c := ⟨by simp, by simp⟩

theorem Puts.trans {ls ls' js js' : List String} (h : Puts ls js c c₁) (h' : Puts ls' js' c₁ c₂) :
    Puts (ls ++ ls') (js ++ js') c c₂ := by
  constructor
  · rw [h'.labels, h.labels, List.append_assoc]
  · rw [h'.jumps, h.jumps, List.append_assoc]

theorem Puts.add {ls js : List String} (h : Puts ls js c c₁) (i : Instr) :
    Puts (ls ++ (labelOf? i).toList) (js ++ (jumpOf? i).toList) c (c₁.add i) := by
  constructor
  · rw [labelsSet_add, h.labels, List.append_assoc]
  · rw [seen_add, h.jumps, List.append_assoc]

theorem Puts.closed {ls js : List String} (h : Puts ls js c c₁) : Puts ls js c c₁.closed := by
  constructor
  · rw [labelsSet_closed, h.labels]
  · rw [seen_closed rfl, h.jumps]

/-- Between two states each label with a number between has been set once, and one label for each
of some names. The new jumps lead to labels with such numbers. -/
def Sets (ns : List String) (c c' : Compiler) : Prop :=
  ∃ ls js, Puts ls js c c' ∧ Owns c.labels c'.labels ns ls js

theorem Sets.refl (c : Compiler) : Sets [] c c := ⟨[], [], .refl c, owns_nil _⟩

theorem Sets.trans (h : Sets ns c c₁) (h' : Sets ns' c₁ c₂) : Sets (ns ++ ns') c c₂ := by
  obtain ⟨ls, js, puts, owns⟩ := h
  obtain ⟨ls', js', puts', owns'⟩ := h'
  exact ⟨_, _, puts.trans puts', owns.append owns'⟩

/-- An instruction that is neither a label nor a jump. -/
theorem Sets.add {i : Instr} (h : Sets ns c c₁) (plain : labelOf? i = none ∧ jumpOf? i = none) :
    Sets ns c (c₁.add i) := by
  obtain ⟨ls, js, puts, owns⟩ := h
  have puts := puts.add i
  rw [plain.1, plain.2, Option.toList, List.append_nil, List.append_nil] at puts
  exact ⟨ls, js, puts, owns⟩

/-- Symbols do not matter. -/
theorem Sets.of_code {d d₁ : Compiler} (h : Sets ns c c₁) (before : d.code = c.code)
    (labels : d.labels = c.labels) (after : d₁.code = c₁.code) (labels' : d₁.labels = c₁.labels) :
    Sets ns d d₁ := by
  obtain ⟨ls, js, puts, owns⟩ := h
  rw [← labels, ← labels'] at owns
  refine ⟨ls, js, ⟨?_, ?_⟩, owns⟩
  · rw [labelsSet, labelsSet, before, after]
    exact puts.labels
  · rw [seen, seen, before, after]
    exact puts.jumps

theorem Sets.closed (h : Sets ns c c₁) : Sets ns c c₁.closed := by
  obtain ⟨ls, js, puts, owns⟩ := h
  exact ⟨ls, js, puts.closed, owns⟩

/-- The names of the functions that are declared in a part. -/
def Part.declared : Part → List String
  | .expr _ | .exprs _ => []
  | .stmt s => s.declared
  | .stmts ss => Stmt.declaredBy ss
  | .otherwise o => Block.declaredElse o

theorem puts_thenStart (c : Compiler) :
    Puts [labelName (c.labels + 1)] [labelName (c.labels + 2)] c c.thenStart.opened :=
  have puts := ((Puts.refl (c.takeLabels 3)).add (.jumpIfZero (labelName (c.labels + 2)))).add
    (.label (labelName (c.labels + 1)))
  ⟨puts.labels, puts.jumps⟩

theorem puts_elseStart (c : Compiler) (n : Nat) :
    Puts [labelName (n + 2)] [labelName (n + 3)] c (c.elseStart n) :=
  ((Puts.refl c).add (.jump (labelName (n + 3)))).add (.label (labelName (n + 2)))

theorem puts_ending (c : Compiler) (n : Nat) : Puts [labelName n] [] c (c.ending n) :=
  (Puts.refl c).add (.label (labelName n))

theorem puts_loopStart (c : Compiler) : Puts [labelName (c.labels + 1)] [] c c.loopStart :=
  have puts := (Puts.refl (c.takeLabels 3)).add (.label (labelName (c.labels + 1)))
  ⟨puts.labels, puts.jumps⟩

theorem puts_bodyStart (c : Compiler) (n : Nat) :
    Puts [labelName (n + 2)] [labelName (n + 3)] c (c.bodyStart n).opened :=
  have puts := ((Puts.refl c).add (.jumpIfZero (labelName (n + 3)))).add
    (.label (labelName (n + 2)))
  ⟨puts.labels, puts.jumps⟩

theorem puts_goBack (c : Compiler) (n : Nat) : Puts [] [labelName (n + 1)] c (c.goBack n) :=
  (Puts.refl c).add (.jump (labelName (n + 1)))

theorem puts_funcStart (c : Compiler) (name : String) (ps : List Param) :
    Puts [name] [labelName (c.labels + 1)] c
      ((c.funcStart name ps.length).opened.withParams ps) := by
  have puts := ((Puts.refl ((c.declared name ps.length).takeLabels 1)).add
    (.jump (labelName (c.labels + 1)))).add (.label name)
  constructor
  · rw [labelsSet_withParams]
    exact puts.labels
  · rw [seen_withParams fun _ => rfl]
    exact puts.jumps

theorem puts_funcEnd (c : Compiler) : Puts [] [] c c.funcEnd :=
  ((Puts.refl c).add (.push (.value .nothing))).add .leave

theorem sets_branch {c₃ : Compiler} (tested : Sets [] c c₁) (body : Sets ns c₁.thenStart.opened c₂)
    (other : Sets ns' (c₂.closed.elseStart c₁.labels) c₃) :
    Sets (ns ++ ns') c (c₃.ending (c₁.labels + 3)) := by
  obtain ⟨ls, js, puts, owns⟩ := body.closed
  obtain ⟨ls', js', puts', owns'⟩ := other
  suffices rest : Sets (ns ++ ns') c₁ (c₃.ending (c₁.labels + 3)) from tested.trans rest
  have all := ((((puts_thenStart c₁).trans puts).trans (puts_elseStart _ _)).trans puts').trans
    (puts_ending _ (c₁.labels + 3))
  refine ⟨_, _, all, ((owns_three c₁.labels).append (owns.append owns')).rearrange ?_ ?_⟩
  · intro l
    simp only [List.count_append, List.count_nil]
    omega
  · grind

theorem sets_loop (tested : Sets [] c.loopStart c₁)
    (body : Sets ns (c₁.bodyStart c.labels).opened c₂) :
    Sets ns c ((c₂.closed.goBack c.labels).ending (c.labels + 3)) := by
  obtain ⟨ls, js, puts, owns⟩ := tested
  obtain ⟨ls', js', puts', owns'⟩ := body.closed
  have all := (((((puts_loopStart c).trans puts).trans (puts_bodyStart _ _)).trans puts').trans
    (puts_goBack _ c.labels)).trans (puts_ending _ (c.labels + 3))
  refine ⟨_, _, all, ((owns_three c.labels).append (owns.append owns')).rearrange ?_ ?_⟩
  · intro l
    simp only [List.count_append, List.count_nil]
    omega
  · grind

theorem sets_func {name : String} {ps : List Param}
    (body : Sets ns ((c.funcStart name ps.length).opened.withParams ps) c₁) :
    Sets (name :: ns) c (c₁.closed.funcEnd.ending (c.labels + 1)) := by
  obtain ⟨ls, js, puts, owns⟩ := body.closed
  rw [labels_withParams] at owns
  have all := (((puts_funcStart c name ps).trans puts).trans (puts_funcEnd _)).trans
    (puts_ending _ (c.labels + 1))
  refine ⟨_, _, all, ((owns_one c.labels).append owns).rearrange ?_ ?_⟩
  · intro l
    have first : ([name] ++ ns).count l = [name].count l + ns.count l := List.count_append
    rw [List.singleton_append] at first
    simp only [List.count_append, List.count_nil]
    omega
  · grind

/-- The labels and jumps of a part. -/
theorem Emits.sets {p : Part} (h : Emits p c c') : Sets p.declared c c' := by
  induction h with
  | integer | real | bool | text => exact (Sets.refl _).add ⟨rfl, rfl⟩
  | name loads =>
    cases loads with
    | global | loc => exact (Sets.refl _).add ⟨rfl, rfl⟩
  | binary _ _ _ ih ih' | logical _ _ _ ih ih' => exact (ih.trans ih').add ⟨rfl, rfl⟩
  | minus _ _ ih | print _ ih | println _ _ ih | callStmt _ ih | ret _ ih =>
    exact ih.add ⟨rfl, rfl⟩
  | tilde _ _ ih | call _ _ _ ih => exact (ih.add ⟨rfl, rfl⟩).add ⟨rfl, rfl⟩
  | plus _ _ ih | group _ ih => exact ih
  | noExprs | noElse | count | noStmts => exact .refl _
  | moreExprs _ _ ih ih' | moreStmts _ _ ih ih' => exact ih.trans ih'
  | branch _ _ _ ih ih₁ ih₂ =>
    rw [Part.declared, Stmt.declared, Block.declared_eq]
    exact sets_branch ih ih₁ ih₂
  | @orElse b _ _ _ ih =>
    rw [Part.declared, Block.declaredElse, Block.declared_eq]
    exact ih.closed.of_code rfl rfl rfl rfl
  | loop _ _ ih ih₁ =>
    rw [Part.declared, Stmt.declared, Block.declared_eq]
    exact sets_loop ih ih₁
  | assign _ _ stores ih =>
    cases stores with
    | newGlobal =>
      exact (ih.add (i := .storeGlobal _) ⟨rfl, rfl⟩).of_code rfl rfl rfl rfl
    | newLocal => exact (ih.add (i := .setSlot _) ⟨rfl, rfl⟩).of_code rfl rfl rfl rfl
    | global | loc => exact ih.add ⟨rfl, rfl⟩
  | assignLocal _ _ ih => exact (ih.add (i := .setSlot _) ⟨rfl, rfl⟩).of_code rfl rfl rfl rfl
  | func _ _ _ ih =>
    rw [Part.declared, Stmt.declared, Block.declared_eq]
    exact sets_func ih

/-! ### Calls -/

/-- The calls in a part, with the declarations that are in scope. -/
def Part.calls (scope : Visible) (k : Nat) : Part → List (String × Option Nat)
  | .expr e => e.calls scope
  | .exprs es => Expr.callsOf scope es
  | .stmt s => s.calls scope k
  | .stmts ss => Stmt.callsBy scope k ss
  | .otherwise o => Block.callsElse scope k o

/-- The calls in the code of a part are the calls in the part, in order. -/
theorem Emits.seen_calls {p : Part} (h : Emits p c c') (scope : Visible) (k : Nat) :
    seen callOf? c' = seen callOf? c ++ (p.calls scope k).map Prod.fst := by
  induction h generalizing scope k with
  | integer | real | bool | text =>
    rw [seen_add_none rfl]
    simp [Part.calls, Expr.calls]
  | name loads =>
    cases loads with
    | global | loc =>
      rw [seen_add_none rfl]
      simp [Part.calls, Expr.calls]
  | binary _ _ _ ih ih' | logical _ _ _ ih ih' =>
    rw [seen_add_none rfl, ih' scope k, ih scope k]
    simp [Part.calls, Expr.calls]
  | minus _ _ ih | print _ ih | println _ _ ih | callStmt _ ih | ret _ ih =>
    rw [seen_add_none rfl, ih scope k]
    simp [Part.calls, Expr.calls, Stmt.calls]
  | tilde _ _ ih =>
    rw [seen_add_none rfl, seen_add_none rfl, ih scope k]
    simp [Part.calls, Expr.calls]
  | call _ _ _ ih =>
    rw [seen_add, seen_add_none rfl, ih scope k]
    simp [Part.calls, Expr.calls, callOf?]
  | plus _ _ ih | group _ ih =>
    rw [ih scope k]
    simp [Part.calls, Expr.calls]
  | noExprs | noElse | count | noStmts =>
    simp [Part.calls, Expr.callsOf, Block.callsElse, Stmt.calls, Stmt.callsBy]
  | moreExprs _ _ ih ih' =>
    rw [ih' scope k, ih scope k]
    simp [Part.calls, Expr.callsOf]
  | @moreStmts s ss _ _ _ _ _ ih ih' =>
    rw [ih' (s.visible scope k) (k + s.declared.length), ih scope k]
    simp [Part.calls, Stmt.callsBy]
  | @branch test b o line c c₁ c₂ c₃ _ _ _ ih ih₁ ih₂ =>
    have atThen : seen callOf? c₁.thenStart.opened = seen callOf? c₁ :=
      (seen_add_none rfl).trans (seen_add_none rfl)
    have atElse : seen callOf? (c₂.closed.elseStart c₁.labels) = seen callOf? c₂.closed :=
      (seen_add_none rfl).trans (seen_add_none rfl)
    rw [ending, seen_add_none rfl, ih₂ scope (k + b.declared.length), atElse, seen_closed rfl,
      ih₁ scope k, atThen, ih scope k]
    simp [Part.calls, Stmt.calls, Block.calls_eq]
  | orElse _ ih =>
    rw [seen_closed rfl, ih scope k]
    simp [Part.calls, Block.callsElse, Block.calls_eq, opened, seen]
  | @loop test b line c c₁ c₂ _ _ ih ih₁ =>
    have atTest : seen callOf? c.loopStart = seen callOf? c := seen_add_none rfl
    have atBody : seen callOf? (c₁.bodyStart c.labels).opened = seen callOf? c₁ :=
      (seen_add_none rfl).trans (seen_add_none rfl)
    rw [ending, seen_add_none rfl, goBack, seen_add_none rfl, seen_closed rfl, ih₁ scope k,
      atBody, ih scope k, atTest]
    simp [Part.calls, Stmt.calls, Block.calls_eq]
  | assign _ _ stores ih =>
    rw [Part.calls, Stmt.calls]
    cases stores with
    | newGlobal | newLocal | global | loc => exact (seen_add_none rfl).trans (ih scope k)
  | assignLocal _ _ ih =>
    rw [Part.calls, Stmt.calls]
    exact (seen_add_none rfl).trans (ih scope k)
  | @func name ps b line c c₁ _ _ _ ih =>
    have atBody : seen callOf? ((c.funcStart name ps.length).opened.withParams ps) =
        seen callOf? c :=
      (seen_withParams (fun _ => rfl) _ _).trans ((seen_add_none rfl).trans (seen_add_none rfl))
    rw [ending, seen_add_none rfl, funcEnd, seen_add_none rfl, seen_add_none rfl, seen_closed rfl,
      ih ((name, k) :: scope) (k + 1), atBody]
    simp [Part.calls, Stmt.calls, Block.calls_eq]

/-- The functions that a state knows are in scope, under the numbers of their declarations among
all declarations. -/
structure InScope (all : List String) (scope : Visible) (c : Compiler) : Prop where
  layered : Layered c
  known : ∀ f ∈ c.functions, ∃ j, scope.lookup f.name = some j
  number : ∀ {n j}, scope.lookup n = some j → all[j]? = some n

variable {all : List String} {scope : Visible} {k : Nat}

theorem InScope.same (h : InScope all scope c) (same : SameSymbols c c') : InScope all scope c' :=
  ⟨same.layered h.layered, same.functions ▸ h.known, h.number⟩

theorem InScope.opened (h : InScope all scope c) : InScope all scope c.opened :=
  ⟨h.layered.opened, h.known, h.number⟩

theorem lookup_visible (name n : String) (k : Nat) (scope : Visible) :
    List.lookup n ((name, k) :: scope) = if n = name then some k else scope.lookup n := by
  rw [List.lookup_cons]
  by_cases same : n = name
  · simp [same]
  · rw [beq_eq_false_iff_ne.mpr same, if_neg same]

theorem cons_prefix_drop {name : String} (h : name :: ns <+: all.drop k) :
    all[k]? = some name ∧ ns <+: all.drop (k + 1) := by
  obtain ⟨rest, eq⟩ := h
  refine ⟨?_, rest, ?_⟩
  · rw [← Nat.add_zero k, ← List.getElem?_drop, ← eq]
    rfl
  · rw [← List.drop_drop, ← eq]
    rfl

theorem append_prefix_drop (h : ns ++ ns' <+: all.drop k) :
    ns <+: all.drop k ∧ ns' <+: all.drop (k + ns.length) := by
  obtain ⟨rest, eq⟩ := h
  refine ⟨⟨ns' ++ rest, by rw [← List.append_assoc, eq]⟩, rest, ?_⟩
  rw [← List.drop_drop, ← eq, List.append_assoc, List.drop_left]

/-- A declaration brings its function into scope. -/
theorem InScope.declared {name : String} {depth : Int} {arity : Nat} (h : InScope all scope c)
    (here : all[k]? = some name) (layered : Layered c')
    (functions : c'.functions = c.functions.push ⟨name, true, depth, arity⟩) :
    InScope all ((name, k) :: scope) c' := by
  refine ⟨layered, fun f mem => ?_, fun {n j} found => ?_⟩
  · rw [functions] at mem
    rw [lookup_visible]
    split
    · exact ⟨k, rfl⟩
    · rcases Array.mem_push.mp mem with mem | rfl
      · exact h.known f mem
      · contradiction
  · rw [lookup_visible] at found
    split at found
    · rename_i same
      cases found
      exact same ▸ here
    · exact h.number found

theorem InScope.func {name : String} {ps : List Param} (h : InScope all scope c)
    (here : all[k]? = some name) :
    InScope all ((name, k) :: scope) ((c.funcStart name ps.length).opened.withParams ps) := by
  have params := grows_withParams (c.funcStart name ps.length).opened ps
  have layered := (grows_funcStart c name ps.length).layered h.layered
  exact h.declared here (params.layered layered.opened) (functions_withParams _ ps)

/-- What a statement leaves in scope. -/
theorem InScope.after {s : Stmt} (h : InScope all scope c) (emits : Emits (.stmt s) c c')
    (inside : s.declared <+: all.drop k) : InScope all (s.visible scope k) c' := by
  have layered := (emits.grown h.layered).layered h.layered
  cases func : s.isFunc with
  | false =>
    have same : s.visible scope k = scope := by cases s <;> simp_all [Stmt.visible, Stmt.isFunc]
    rw [same]
    exact ⟨layered, (emits.kept h.layered).functions func ▸ h.known, h.number⟩
  | true =>
    cases emits with
    | @func name ps b _ _ _ _ _ body =>
      rw [Stmt.declared] at inside
      exact h.declared (cons_prefix_drop inside).1 layered (func_scope h.layered body).functions
    | _ => simp [Stmt.isFunc] at func

/-- Every call in a part refers to a declaration of its name. -/
theorem Emits.resolved {p : Part} (h : Emits p c c') (known : InScope all scope c)
    (inside : p.declared <+: all.drop k) :
    ∀ x ∈ p.calls scope k, ∃ j, x.2 = some j ∧ all[j]? = some x.1 := by
  induction h generalizing scope k with
  | integer | real | bool | text | name | noExprs | noElse | count | noStmts =>
    simp [Part.calls, Expr.calls, Expr.callsOf, Block.callsElse, Stmt.calls, Stmt.callsBy]
  | binary _ left _ ih ih' | logical _ left _ ih ih' | moreExprs left _ ih ih' =>
    intro x mem
    rcases List.mem_append.mp mem with mem | mem
    · exact ih (k := k) known inside x mem
    · exact ih' (k := k) (known.same left.grown.1.symbols) inside x mem
  | minus _ _ ih | tilde _ _ ih | plus _ _ ih | group _ ih => exact ih (k := k) known inside
  | @call n es line f c c₁ found _ _ ih =>
    intro x mem
    rcases List.mem_append.mp mem with mem | mem
    · exact ih (k := k) known inside x mem
    · rw [List.mem_singleton] at mem
      subst mem
      obtain ⟨member, rfl⟩ := funcSymbol?_some found
      obtain ⟨j, declared⟩ := known.known f member
      exact ⟨j, declared, known.number declared⟩
  | print _ ih | println _ _ ih | callStmt _ ih | ret _ ih | assign _ _ _ ih
  | assignLocal _ _ ih =>
    rw [Part.calls, Stmt.calls]
    exact ih (k := k) known List.nil_prefix
  | @branch test b o line c c₁ c₂ c₃ tested body rest ih ih₁ ih₂ =>
    rw [Part.declared, Stmt.declared] at inside
    obtain ⟨inBody, inElse⟩ := append_prefix_drop inside
    rw [Block.declared_eq] at inBody
    have atTest := known.same tested.grown.1.symbols
    have atThen := atTest.same (thenStart_scope c₁)
    have atElse := (atThen.same (closed_scope atThen.layered
      (body.grown atThen.layered.opened))).same (elseStart_scope _ c₁.labels)
    rw [Part.calls, Stmt.calls, Block.calls_eq]
    intro x mem
    rcases List.mem_append.mp mem with mem | mem
    · rcases List.mem_append.mp mem with mem | mem
      · exact ih (k := k) known List.nil_prefix x mem
      · exact ih₁ atThen.opened inBody x mem
    · exact ih₂ atElse inElse x mem
  | orElse _ ih =>
    rw [Part.declared, Block.declaredElse, Block.declared_eq] at inside
    rw [Part.calls, Block.callsElse, Block.calls_eq]
    exact ih known.opened inside
  | @loop test b line c c₁ c₂ tested body ih ih₁ =>
    rw [Part.declared, Stmt.declared, Block.declared_eq] at inside
    have atTest := known.same (loopStart_scope c)
    have atBody := (atTest.same tested.grown.1.symbols).same (bodyStart_scope _ c.labels)
    rw [Part.calls, Stmt.calls, Block.calls_eq]
    intro x mem
    rcases List.mem_append.mp mem with mem | mem
    · exact ih (k := k) atTest List.nil_prefix x mem
    · exact ih₁ atBody.opened inside x mem
  | func _ _ _ ih =>
    rw [Part.declared, Stmt.declared, Block.declared_eq] at inside
    obtain ⟨here, inBody⟩ := cons_prefix_drop inside
    rw [Part.calls, Stmt.calls, Block.calls_eq]
    exact ih (known.func here) inBody
  | moreStmts first _ ih ih' =>
    obtain ⟨inFirst, inRest⟩ := append_prefix_drop inside
    intro x mem
    rcases List.mem_append.mp mem with mem | mem
    · exact ih known inFirst x mem
    · exact ih' (known.after first inFirst) inRest x mem

end ScriptLang.Compiler
