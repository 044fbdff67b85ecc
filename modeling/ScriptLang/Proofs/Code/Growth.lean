import ScriptLang.Proofs.Code.Emits
import ScriptLang.Proofs.Tree.Shape

/-!
What compiling a part changes in the state of the compiler.

Code is only added at the end, so the code of every state on the way begins the whole code
(`Begins`). An expression changes nothing but the code. A statement may add symbols at the end, all
of the depth it stands at (`Grows`); leaving a block removes just the symbols that were added in it.
-/

namespace ScriptLang.Compiler

variable {c c₁ c₂ c' : Compiler} {code : Array Instr}

/-! ### Code -/

/-- The code of a state is the beginning of a whole code. -/
def Begins (c : Compiler) (code : Array Instr) : Prop :=
  c.code.toList <+: code.toList

theorem Begins.of_prefix (pre : c.code.toList <+: c'.code.toList) (h : c'.Begins code) :
    c.Begins code :=
  pre.trans h

theorem prefix_add (c : Compiler) (i : Instr) : c.code.toList <+: (c.add i).code.toList := by
  simp [add]

theorem Begins.of_add {i : Instr} (h : (c.add i).Begins code) : c.Begins code :=
  h.of_prefix (prefix_add c i)

/-- The instruction that has been added stands where the code ended. -/
theorem Begins.fetch {i : Instr} (h : (c.add i).Begins code) :
    code[c.code.size]? = some i := by
  obtain ⟨rest, eq⟩ := h
  rw [← Array.getElem?_toList, ← eq]
  simp [add]

@[simp] theorem size_add (c : Compiler) (i : Instr) :
    (c.add i).code.size = c.code.size + 1 := by
  simp [add]

/-! ### Symbols -/

/-- The same names are known, at the same depth. -/
structure SameScope (c c' : Compiler) : Prop where
  locals : c'.locals = c.locals
  globals : c'.globals = c.globals
  functions : c'.functions = c.functions
  depth : c'.depth = c.depth
  labels : c'.labels = c.labels

/-- The same symbols are known, at the same depth, though labels may have been made. -/
structure SameSymbols (c c' : Compiler) : Prop where
  locals : c'.locals = c.locals
  globals : c'.globals = c.globals
  functions : c'.functions = c.functions
  depth : c'.depth = c.depth

/-- Symbols have been added at the end, all of them of one depth. -/
def Added (depth : Int) (symbols symbols' : Array Symbol) : Prop :=
  ∃ news : Array Symbol, symbols' = symbols ++ news ∧ ∀ s ∈ news, s.depth = depth

/-- What a statement may change. -/
structure Grows (c c' : Compiler) : Prop where
  depth : c'.depth = c.depth
  labels : c.labels ≤ c'.labels
  code : c.code.toList <+: c'.code.toList
  locals : Added c.depth c.locals c'.locals
  globals : Added c.depth c.globals c'.globals
  functions : Added c.depth c.functions c'.functions
  /-- Inside a block no global is added. -/
  inner : c.depth ≠ 0 → c'.globals = c.globals

/-- No symbol is deeper than the state. -/
structure Layered (c : Compiler) : Prop where
  nonneg : 0 ≤ c.depth
  locals : ∀ s ∈ c.locals, s.depth ≤ c.depth
  functions : ∀ s ∈ c.functions, s.depth ≤ c.depth

theorem Added.refl (depth : Int) (symbols : Array Symbol) : Added depth symbols symbols :=
  ⟨#[], by simp, by simp⟩

theorem Added.push (symbols : Array Symbol) (s : Symbol) :
    Added s.depth symbols (symbols.push s) :=
  ⟨#[s], rfl, by simp⟩

theorem Added.trans {depth : Int} {a b d : Array Symbol} (h : Added depth a b)
    (h' : Added depth b d) : Added depth a d := by
  obtain ⟨news, rfl, all⟩ := h
  obtain ⟨news', rfl, all'⟩ := h'
  refine ⟨news ++ news', by simp, ?_⟩
  intro s mem
  rcases Array.mem_append.mp mem with mem | mem
  · exact all s mem
  · exact all' s mem

theorem Added.le {depth : Int} {a b : Array Symbol} (h : Added depth a b)
    (le : ∀ s ∈ a, s.depth ≤ depth) : ∀ s ∈ b, s.depth ≤ depth := by
  obtain ⟨news, rfl, all⟩ := h
  intro s mem
  rcases Array.mem_append.mp mem with mem | mem
  · exact le s mem
  · exact Int.le_of_eq (all s mem)

theorem Added.size_le {depth : Int} {a b : Array Symbol} (h : Added depth a b) :
    a.size ≤ b.size := by
  obtain ⟨news, rfl, -⟩ := h
  rw [Array.size_append]
  exact Nat.le_add_right _ _

/-- Leaving a block restores the symbols from before it. -/
theorem dropDeeper_added {depth : Int} {a b : Array Symbol} (h : Added (depth + 1) a b)
    (le : ∀ s ∈ a, s.depth ≤ depth) : dropDeeper depth b = a := by
  obtain ⟨news, rfl, all⟩ := h
  have kept : a.popWhile (fun s => decide (depth < s.depth)) = a := by
    unfold Array.popWhile
    split
    · rw [if_neg]
      simpa using le _ (Array.getElem_mem _)
    · rfl
  rw [dropDeeper, Array.popWhile_append_of_pos, kept]
  intro s mem
  have := all s mem
  simp only [decide_eq_true_eq]
  omega

theorem size_dropDeeper_le (depth : Int) (symbols : Array Symbol) :
    (dropDeeper depth symbols).size ≤ symbols.size := by
  unfold dropDeeper
  fun_induction Array.popWhile with
  | case1 a _ _ ih =>
    rw [Array.size_pop] at ih
    omega
  | case2 | case3 => exact Nat.le_refl _

theorem SameScope.refl (c : Compiler) : SameScope c c := ⟨rfl, rfl, rfl, rfl, rfl⟩

theorem SameScope.trans (h : SameScope c c₁) (h' : SameScope c₁ c₂) : SameScope c c₂ :=
  ⟨h'.locals.trans h.locals, h'.globals.trans h.globals, h'.functions.trans h.functions,
    h'.depth.trans h.depth, h'.labels.trans h.labels⟩

theorem SameScope.symbols (h : SameScope c c') : SameSymbols c c' :=
  ⟨h.locals, h.globals, h.functions, h.depth⟩

theorem SameSymbols.trans (h : SameSymbols c c₁) (h' : SameSymbols c₁ c₂) : SameSymbols c c₂ :=
  ⟨h'.locals.trans h.locals, h'.globals.trans h.globals, h'.functions.trans h.functions,
    h'.depth.trans h.depth⟩

theorem SameSymbols.symm (h : SameSymbols c c') : SameSymbols c' c :=
  ⟨h.locals.symm, h.globals.symm, h.functions.symm, h.depth.symm⟩

theorem SameScope.add (h : SameScope c c₁) (i : Instr) : SameScope c (c₁.add i) :=
  ⟨h.locals, h.globals, h.functions, h.depth, h.labels⟩

theorem SameScope.varSymbol? (h : SameScope c c₁) (x : String) :
    c₁.varSymbol? x = c.varSymbol? x := by
  rw [Compiler.varSymbol?, Compiler.varSymbol?, h.locals, h.globals]

theorem Grows.refl (c : Compiler) : Grows c c :=
  ⟨rfl, Nat.le_refl _, List.prefix_refl _, .refl _ _, .refl _ _, .refl _ _, fun _ => rfl⟩

theorem Grows.trans (h : Grows c c₁) (h' : Grows c₁ c₂) : Grows c c₂ := by
  obtain ⟨depth', labels', code', locals', globals', functions', inner'⟩ := h'
  rw [h.depth] at locals' globals' functions' inner'
  exact ⟨depth'.trans h.depth, Nat.le_trans h.labels labels', h.code.trans code',
    h.locals.trans locals', h.globals.trans globals', h.functions.trans functions',
    fun deep => (inner' deep).trans (h.inner deep)⟩

theorem Grows.layered (h : Grows c c') (layered : Layered c) : Layered c' := by
  refine ⟨?_, ?_, ?_⟩
  · rw [h.depth]
    exact layered.nonneg
  · rw [h.depth]
    exact h.locals.le layered.locals
  · rw [h.depth]
    exact h.functions.le layered.functions

theorem grows_of_same (same : SameScope c c') (code : c.code.toList <+: c'.code.toList) :
    Grows c c' := by
  obtain ⟨locals, globals, functions, depth, labels⟩ := same
  refine ⟨depth, Nat.le_of_eq labels.symm, code, ?_, ?_, ?_, fun _ => globals⟩
  · rw [locals]
    exact .refl _ _
  · rw [globals]
    exact .refl _ _
  · rw [functions]
    exact .refl _ _

theorem grows_add (c : Compiler) (i : Instr) : Grows c (c.add i) :=
  grows_of_same ((SameScope.refl c).add i) (prefix_add c i)

theorem grows_takeLabels (c : Compiler) (n : Nat) : Grows c (c.takeLabels n) :=
  ⟨rfl, Nat.le_add_right _ _, List.prefix_refl _, .refl _ _, .refl _ _, .refl _ _, fun _ => rfl⟩

theorem grows_withLocal (c : Compiler) (x : String) : Grows c (c.withLocal x) :=
  ⟨rfl, Nat.le_refl _, by simp [withLocal, add], Added.push _ _, .refl _ _, .refl _ _,
    fun _ => rfl⟩

theorem grows_withGlobal {x : String} (top : c.depth = 0) : Grows c (c.withGlobal x) :=
  ⟨rfl, Nat.le_refl _, by simp [withGlobal, add], .refl _ _, Added.push _ _, .refl _ _,
    fun deep => absurd top deep⟩

theorem grows_declared (c : Compiler) (f : String) (arity : Nat) : Grows c (c.declared f arity) :=
  ⟨rfl, Nat.le_refl _, List.prefix_refl _, .refl _ _, .refl _ _, Added.push _ _, fun _ => rfl⟩

theorem grows_withParams (c : Compiler) (ps : List Param) : Grows c (c.withParams ps) := by
  induction ps generalizing c with
  | nil => exact .refl c
  | cons p ps ih => exact (grows_withLocal c p.name).trans (ih _)

theorem grows_thenStart (c : Compiler) : Grows c c.thenStart :=
  ((grows_takeLabels c 3).trans (grows_add _ _)).trans (grows_add _ _)

theorem grows_elseStart (c : Compiler) (n : Nat) : Grows c (c.elseStart n) :=
  (grows_add c _).trans (grows_add _ _)

theorem grows_loopStart (c : Compiler) : Grows c c.loopStart :=
  (grows_takeLabels c 3).trans (grows_add _ _)

theorem grows_bodyStart (c : Compiler) (n : Nat) : Grows c (c.bodyStart n) :=
  (grows_add c _).trans (grows_add _ _)

theorem grows_funcStart (c : Compiler) (f : String) (arity : Nat) : Grows c (c.funcStart f arity) :=
  (((grows_declared c f arity).trans (grows_takeLabels _ 1)).trans (grows_add _ _)).trans
    (grows_add _ _)

theorem grows_funcEnd (c : Compiler) : Grows c c.funcEnd :=
  (grows_add c _).trans (grows_add _ _)

theorem grows_stores {x : String} (h : Stores c x c') : Grows c c' := by
  cases h with
  | newGlobal _ top => exact grows_withGlobal top
  | newLocal => exact grows_withLocal c x
  | global | loc => exact grows_add c _

/-! ### Blocks -/

theorem prefix_closed (c : Compiler) : c.code.toList <+: c.closed.code.toList := by
  simp [closed]

theorem size_closed (c : Compiler) :
    c.closed.code.size = c.code.size + (c.locals.size - c.closed.locals.size) := by
  simp [closed]

/-- At the end of a block its locals are popped. -/
theorem fetch_closed (begins : c.closed.Begins code) {j : Nat}
    (lt : j < c.locals.size - c.closed.locals.size) : code[c.code.size + j]? = some .pop := by
  have size := size_closed c
  obtain ⟨rest, eq⟩ := begins
  rw [← Array.getElem?_toList, ← eq, List.getElem?_append_left (by simp; omega),
    Array.getElem?_toList]
  have code : c.closed.code =
    c.code ++ Array.replicate (c.locals.size - c.closed.locals.size) .pop := rfl
  rw [code, Array.getElem?_append_right (Nat.le_add_right _ _), Nat.add_sub_cancel_left]
  simp [lt]

/-- A block that has been opened and closed leaves nothing but code and labels. -/
theorem closed_scope (layered : Layered c) (h : Grows c.opened c₁) : SameSymbols c c₁.closed := by
  have depth : c₁.depth = c.depth + 1 := h.depth
  have depth' : c₁.depth - 1 = c.depth := by omega
  have deep : c.opened.depth ≠ 0 := by
    have nonneg := layered.nonneg
    change c.depth + 1 ≠ 0
    omega
  refine ⟨?_, h.inner deep, ?_, depth'⟩
  · change dropDeeper (c₁.depth - 1) c₁.locals = _
    rw [depth']
    exact dropDeeper_added h.locals layered.locals
  · change dropDeeper (c₁.depth - 1) c₁.functions = _
    rw [depth']
    exact dropDeeper_added h.functions layered.functions

theorem grows_closed (layered : Layered c) (h : Grows c.opened c₁) : Grows c c₁.closed := by
  obtain ⟨locals, globals, functions, depth⟩ := closed_scope layered h
  refine ⟨depth, h.labels, h.code.trans (prefix_closed c₁), ?_, ?_, ?_, fun _ => globals⟩
  · rw [locals]
    exact .refl _ _
  · rw [globals]
    exact .refl _ _
  · rw [functions]
    exact .refl _ _

theorem Layered.opened (layered : Layered c) : Layered c.opened := by
  have nonneg := layered.nonneg
  refine ⟨?_, ?_, ?_⟩
  · change 0 ≤ c.depth + 1
    omega
  · intro s mem
    have := layered.locals s mem
    change s.depth ≤ c.depth + 1
    omega
  · intro s mem
    have := layered.functions s mem
    change s.depth ≤ c.depth + 1
    omega

/-- What compiling a part may change: an expression only adds code, a statement also symbols. -/
def Part.Grown : Part → Compiler → Compiler → Prop
  | .expr _, c, c' | .exprs _, c, c' => SameScope c c' ∧ c.code.toList <+: c'.code.toList
  | .stmt _, c, c' | .stmts _, c, c' | .otherwise _, c, c' => Layered c → Grows c c'

theorem Emits.grown {p : Part} (h : Emits p c c') : p.Grown c c' := by
  induction h with
  | integer | real | bool | text | name => exact ⟨(SameScope.refl _).add _, prefix_add _ _⟩
  | binary _ _ _ ih ih' | logical _ _ _ ih ih' =>
    exact ⟨(ih.1.trans ih'.1).add _, (ih.2.trans ih'.2).trans (prefix_add _ _)⟩
  | minus _ _ ih => exact ⟨ih.1.add _, ih.2.trans (prefix_add _ _)⟩
  | tilde _ _ ih | call _ _ _ ih =>
    exact ⟨(ih.1.add _).add _, (ih.2.trans (prefix_add _ _)).trans (prefix_add _ _)⟩
  | plus _ _ ih | group _ ih => exact ih
  | noExprs => exact ⟨.refl _, List.prefix_refl _⟩
  | moreExprs _ _ ih ih' => exact ⟨ih.1.trans ih'.1, ih.2.trans ih'.2⟩
  | print _ ih | println _ _ ih | callStmt _ ih | ret _ ih =>
    exact fun _ => (grows_of_same ih.1 ih.2).trans (grows_add _ _)
  | @branch _ _ _ _ c c₁ _ _ _ _ _ ih ih₁ ih₂ =>
    intro layered
    have tested := (grows_of_same ih.1 ih.2).trans (grows_thenStart _)
    have layered₁ := tested.layered layered
    have body := tested.trans (grows_closed layered₁ (ih₁ layered₁.opened))
    have before := body.trans (grows_elseStart _ c₁.labels)
    exact (before.trans (ih₂ (before.layered layered))).trans (grows_add _ _)
  | noElse => exact fun _ => .refl _
  | orElse _ ih => exact fun layered => grows_closed layered (ih layered.opened)
  | @loop _ _ _ c _ _ _ _ ih ih₁ =>
    intro layered
    have tested := ((grows_loopStart c).trans (grows_of_same ih.1 ih.2)).trans
      (grows_bodyStart _ c.labels)
    have layered₁ := tested.layered layered
    have body := tested.trans (grows_closed layered₁ (ih₁ layered₁.opened))
    exact (body.trans (grows_add _ _)).trans (grows_add _ _)
  | assign _ _ stores ih => exact fun _ => (grows_of_same ih.1 ih.2).trans (grows_stores stores)
  | assignLocal _ _ ih => exact fun _ => (grows_of_same ih.1 ih.2).trans (grows_withLocal _ _)
  | count => exact fun _ => .refl _
  | @func name ps b line c c₁ _ _ _ ih =>
    intro layered
    have head := grows_funcStart c name ps.length
    have layered₁ := head.layered layered
    have params := grows_withParams (c.funcStart name ps.length).opened ps
    have body := head.trans (grows_closed layered₁ (params.trans
      (ih (params.layered layered₁.opened))))
    exact (body.trans (grows_funcEnd _)).trans (grows_add _ _)
  | noStmts => exact fun _ => .refl _
  | moreStmts _ _ ih ih' =>
    exact fun layered => (ih layered).trans (ih' ((ih layered).layered layered))

/-- A test of all statements of a part. -/
def Part.All (p : Stmt → Bool) : Part → Prop
  | .expr _ | .exprs _ => True
  | .stmt s => s.all p = true
  | .stmts ss => Stmt.allOf p ss = true
  | .otherwise o => Block.allElse p o = true

theorem SameSymbols.layered (h : SameSymbols c c') (layered : Layered c) : Layered c' := by
  refine ⟨?_, ?_, ?_⟩
  · rw [h.depth]
    exact layered.nonneg
  · rw [h.locals, h.depth]
    exact layered.locals
  · rw [h.functions, h.depth]
    exact layered.functions

/-- The block after `else` leaves no symbols. -/
theorem Emits.otherwise_scope {o : Option Block} (h : Emits (.otherwise o) c c')
    (layered : Layered c) : SameSymbols c c' := by
  cases h with
  | noElse => exact ⟨rfl, rfl, rfl, rfl⟩
  | orElse body => exact closed_scope layered (body.grown layered.opened)

theorem thenStart_scope (c : Compiler) : SameSymbols c c.thenStart := ⟨rfl, rfl, rfl, rfl⟩

theorem elseStart_scope (c : Compiler) (n : Nat) : SameSymbols c (c.elseStart n) :=
  ⟨rfl, rfl, rfl, rfl⟩

theorem loopStart_scope (c : Compiler) : SameSymbols c c.loopStart := ⟨rfl, rfl, rfl, rfl⟩

theorem bodyStart_scope (c : Compiler) (n : Nat) : SameSymbols c (c.bodyStart n) :=
  ⟨rfl, rfl, rfl, rfl⟩

/-- A branch leaves no symbols. -/
theorem Emits.branch_scope {test : Expr} {b : Block} {o : Option Block} {line : Line}
    (h : Emits (.stmt (.branch test b o line)) c c') (layered : Layered c) : SameSymbols c c' := by
  cases h with
  | @branch _ _ _ _ _ c₁ _ _ tested body rest =>
    have before := tested.grown.1.symbols.trans (thenStart_scope c₁)
    have layered₁ := before.layered layered
    have block := (closed_scope layered₁ (body.grown layered₁.opened)).trans
      (elseStart_scope _ c₁.labels)
    have other := rest.otherwise_scope (block.layered layered₁)
    have all := before.trans (block.trans other)
    exact ⟨all.locals, all.globals, all.functions, all.depth⟩

/-- A loop leaves no symbols. -/
theorem Emits.loop_scope {test : Expr} {b : Block} {line : Line}
    (h : Emits (.stmt (.loop test b line)) c c') (layered : Layered c) : SameSymbols c c' := by
  cases h with
  | loop tested body =>
    have before := ((loopStart_scope c).trans tested.grown.1.symbols).trans
      (bodyStart_scope _ c.labels)
    have layered₁ := before.layered layered
    have block := closed_scope layered₁ (body.grown layered₁.opened)
    exact before.trans ⟨block.locals, block.globals, block.functions, block.depth⟩

/-- A declaration leaves nothing but the symbol of its function. -/
theorem func_scope {name : String} {ps : List Param} {b : Block} (layered : Layered c)
    (body : Emits (.stmts b.stmts) ((c.funcStart name ps.length).opened.withParams ps) c₁) :
    SameSymbols (c.funcStart name ps.length) c₁.closed := by
  have params := grows_withParams (c.funcStart name ps.length).opened ps
  have layered₁ := (grows_funcStart c name ps.length).layered layered
  exact closed_scope layered₁ (params.trans (body.grown (params.layered layered₁.opened)))

/-- What a statement leaves as it was: what inner blocks add is gone after them. -/
structure Kept (s : Stmt) (c c' : Compiler) : Prop where
  functions : s.isFunc = false → c'.functions = c.functions
  /-- At top level only `local` adds locals. -/
  locals : c.depth = 0 → s.isLocal = false → c'.locals = c.locals
  globals : s.sets? = none → c'.globals = c.globals

theorem SameSymbols.kept (same : SameSymbols c c') (s : Stmt) : Kept s c c' :=
  ⟨fun _ => same.functions, fun _ _ => same.locals, fun _ => same.globals⟩

theorem Emits.kept {s : Stmt} (h : Emits (.stmt s) c c') (layered : Layered c) : Kept s c c' := by
  cases s with
  | branch => exact (h.branch_scope layered).kept _
  | loop => exact (h.loop_scope layered).kept _
  | func =>
    cases h with
    | func _ _ body =>
      have same := func_scope layered body
      exact ⟨nofun, fun _ _ => same.locals, fun _ => same.globals⟩
  | count =>
    cases h
    exact SameSymbols.kept ⟨rfl, rfl, rfl, rfl⟩ _
  | assign =>
    cases h with
    | assign first name stores =>
      have same := first.grown.1
      refine ⟨?_, ?_, fun none => ?_⟩
      · cases stores <;> exact fun _ => same.functions
      · intro top _
        cases stores with
        | newLocal _ deep => exact absurd (same.depth.trans top) deep
        | newGlobal | global | loc => exact same.locals
      · rw [Stmt.sets?, name] at none
        cases none
  | assignLocal =>
    cases h with
    | assignLocal first =>
      exact ⟨fun _ => first.grown.1.functions, fun _ => nofun, fun _ => first.grown.1.globals⟩
  | print =>
    cases h with
    | print first | println _ first => exact (first.grown.1.add _).symbols.kept _
  | call =>
    cases h with
    | callStmt first => exact (first.grown.1.add _).symbols.kept _
  | ret =>
    cases h with
    | ret first => exact (first.grown.1.add _).symbols.kept _

end ScriptLang.Compiler
