import ScriptLang.Proofs.Code.Labels
import ScriptLang.Proofs.Code.Plans

/-!
Scopes are balanced at every moment of a compilation.

A state is balanced if the depths of its locals and functions never decrease and never exceed its
own, and its globals are of depth zero and have names of their own. Leaving a block looks only at
the end of the symbols; because of this order it removes all symbols of the block and no other
(`Ordered.dropDeeper`). A plan that keeps states balanced and whose end has grown from its start
may be put in a block or before another such plan (`Keeps.inBlock`, `Keeps.bind`), so every plan of
the compiler is one.
-/

namespace ScriptLang.Compiler

variable {c c' : Compiler} {depth : Int} {symbols : Array Symbol} {name : String}

/-! ### Symbols in the order of their blocks -/

/-- Depths never decrease along the symbols, and none exceeds a bound. -/
structure Ordered (depth : Int) (symbols : Array Symbol) : Prop where
  sorted : symbols.toList.Pairwise fun s t => s.depth ≤ t.depth
  le : ∀ s ∈ symbols, s.depth ≤ depth

theorem ordered_empty (depth : Int) : Ordered depth #[] :=
  ⟨.nil, by simp⟩

theorem Ordered.mono {depth' : Int} (h : Ordered depth symbols) (le : depth ≤ depth') :
    Ordered depth' symbols :=
  ⟨h.sorted, fun s mem => Int.le_trans (h.le s mem) le⟩

theorem Ordered.push {s : Symbol} (h : Ordered depth symbols) (same : s.depth = depth) :
    Ordered depth (symbols.push s) := by
  constructor
  · rw [Array.toList_push, List.pairwise_append]
    refine ⟨h.sorted, List.pairwise_singleton _ _, ?_⟩
    intro t mem u last
    cases List.mem_singleton.mp last
    rw [same]
    exact h.le t (Array.mem_toList_iff.mp mem)
  · intro t mem
    rcases Array.mem_push.mp mem with mem | rfl
    · exact h.le t mem
    · exact Int.le_of_eq same

theorem toList_dropDeeper (depth : Int) (symbols : Array Symbol) :
    (dropDeeper depth symbols).toList =
      (symbols.toList.reverse.dropWhile fun s => depth < s.depth).reverse := by
  have eq := List.popWhile_toArray (fun s : Symbol => decide (depth < s.depth)) symbols.toList
  rw [Array.toArray_toList] at eq
  rw [dropDeeper, eq, List.toList_toArray]

/-- What leaving a block removes is the end of the symbols, and deeper than what is around it. -/
theorem dropDeeper_append (depth : Int) (symbols : Array Symbol) :
    ∃ gone, symbols = dropDeeper depth symbols ++ gone ∧ ∀ s ∈ gone, depth < s.depth := by
  refine ⟨(symbols.toList.reverse.takeWhile fun s => depth < s.depth).reverse.toArray, ?_, ?_⟩
  · apply Array.toList_inj.mp
    rw [Array.toList_append, toList_dropDeeper, List.toList_toArray, ← List.reverse_append,
      List.takeWhile_append_dropWhile, List.reverse_reverse]
  · intro s mem
    have mem : s ∈ symbols.toList.reverse.takeWhile fun s => depth < s.depth := by
      simpa using mem
    simpa using List.all_eq_true.mp List.all_takeWhile s mem

theorem le_of_mem_dropWhile {l : List Symbol}
    (sorted : l.Pairwise fun s t => t.depth ≤ s.depth) :
    ∀ s ∈ l.dropWhile fun s => depth < s.depth, s.depth ≤ depth := by
  induction l with
  | nil => simp
  | cons t l ih =>
    obtain ⟨first, rest⟩ := List.pairwise_cons.mp sorted
    by_cases deeper : depth < t.depth
    · simpa [deeper] using ih rest
    · have le : t.depth ≤ depth := Int.not_lt.mp deeper
      intro s mem
      rw [List.dropWhile_cons_of_neg (by simpa using le)] at mem
      rcases List.mem_cons.mp mem with rfl | mem
      · exact le
      · exact Int.le_trans (first s mem) le

/-- Nothing of the block stays: what is left is no deeper than what is around it. -/
theorem Ordered.dropDeeper (h : Ordered depth symbols) (outer : Int) :
    Ordered outer (dropDeeper outer symbols) := by
  constructor
  · obtain ⟨gone, eq, -⟩ := dropDeeper_append outer symbols
    have sorted := h.sorted
    rw [eq, Array.toList_append] at sorted
    exact (List.pairwise_append.mp sorted).1
  · -- Seen from the end, the first symbol that stays is the deepest of those that stay.
    intro s mem
    have mem : s ∈ (Compiler.dropDeeper outer symbols).toList := Array.mem_toList_iff.mpr mem
    rw [toList_dropDeeper, List.mem_reverse] at mem
    exact le_of_mem_dropWhile (List.pairwise_reverse.mpr h.sorted) s mem

/-! ### Balanced states -/

structure Balanced (c : Compiler) : Prop where
  nonneg : 0 ≤ c.depth
  locals : Ordered c.depth c.locals
  functions : Ordered c.depth c.functions
  globals : ∀ s ∈ c.globals, s.depth = 0
  distinct : (c.globals.toList.map Symbol.name).Nodup

theorem balanced_empty : Balanced empty :=
  ⟨Int.le_refl 0, ordered_empty 0, ordered_empty 0, by simp [empty], .nil⟩

theorem Balanced.layered (h : Balanced c) : Layered c :=
  ⟨h.nonneg, h.locals.le, h.functions.le⟩

theorem Balanced.add (h : Balanced c) (i : Instr) : Balanced (c.add i) :=
  ⟨h.nonneg, h.locals, h.functions, h.globals, h.distinct⟩

theorem Balanced.takeLabels (h : Balanced c) (n : Nat) : Balanced (c.takeLabels n) :=
  ⟨h.nonneg, h.locals, h.functions, h.globals, h.distinct⟩

theorem Balanced.opened (h : Balanced c) : Balanced c.opened := by
  have le : c.depth ≤ c.depth + 1 := by omega
  exact ⟨Int.le_trans h.nonneg le, h.locals.mono le, h.functions.mono le, h.globals, h.distinct⟩

theorem Balanced.closed (h : Balanced c) (inner : 0 < c.depth) : Balanced c.closed :=
  ⟨Int.le_sub_one_of_lt inner, h.locals.dropDeeper _, h.functions.dropDeeper _, h.globals,
    h.distinct⟩

theorem Balanced.addLocal (h : Balanced c) (name : String) :
    Balanced (Write.apply (.addLocal name) c) :=
  ⟨h.nonneg, h.locals.push rfl, h.functions, h.globals, h.distinct⟩

theorem Balanced.declared (h : Balanced c) (name : String) (arity : Nat) :
    Balanced (c.declared name arity) :=
  ⟨h.nonneg, h.locals, h.functions.push rfl, h.globals, h.distinct⟩

theorem Balanced.addGlobal (h : Balanced c) (top : c.depth = 0) (new : c.varSymbol? name = none) :
    Balanced (Write.apply (.addGlobal name) c) := by
  refine ⟨h.nonneg, h.locals, h.functions, ?_, ?_⟩
  · intro s mem
    rcases Array.mem_push.mp mem with mem | rfl
    · exact h.globals s mem
    · exact top
  · have absent := lastIndexed?_eq_none.mp (varSymbol?_eq_none.mp new).2
    have names : (Write.apply (.addGlobal name) c).globals.toList.map Symbol.name =
        c.globals.toList.map Symbol.name ++ [name] := by
      simp [Write.apply]
    rw [names, List.nodup_append]
    refine ⟨h.distinct, by simp, ?_⟩
    rintro _ known _ last rfl
    obtain ⟨s, mem, rfl⟩ := List.mem_map.mp known
    exact absent s (Array.mem_toList_iff.mp mem) (List.mem_singleton.mp last)

/-! ### Plans that keep states balanced -/

/-- From a state, a plan passes balanced states only, and its end has grown from there. -/
structure KeepsAt {α : Type} (x : Plan α) (c : Compiler) : Prop where
  passes : ∀ made, ∀ m ∈ x.moments ⟨made, c⟩, Balanced m.state
  grows : ∀ a c', x.exec c = .ok a c' → Grows c c'

/-- A plan that keeps balanced states balanced. -/
def Keeps {α : Type} (x : Plan α) : Prop := ∀ c, Balanced c → KeepsAt x c

section

variable {α β : Type} {x : Plan α} {f : α → Plan β} {a : α}

theorem KeepsAt.balanced (h : KeepsAt x c) (ended : x.exec c = .ok a c') : Balanced c' := by
  obtain ⟨m, mem, rfl⟩ := Plan.exists_moment_of_exec ⟨[], c⟩ ended
  exact h.passes [] m mem

theorem keepsAt_done (h : Balanced c) (a : α) : KeepsAt (.done a) c := by
  constructor
  · intro made m mem
    cases List.mem_singleton.mp mem
    exact h
  · intro b c' ended
    cases ended
    exact .refl c

theorem keepsAt_fail (h : Balanced c) (e : Failure) : KeepsAt (.fail e : Plan α) c := by
  constructor
  · intro made m mem
    cases List.mem_singleton.mp mem
    exact h
  · intro b c' ended
    exact absurd ended throw_ne_ok

theorem keepsAt_look {next : Compiler → Plan α} (h : KeepsAt (next c) c) :
    KeepsAt (.look next) c :=
  ⟨h.passes, h.grows⟩

theorem keepsAt_write {w : Write} (h : Balanced c) (grows : Grows c (w.apply c))
    (next : KeepsAt x (w.apply c)) : KeepsAt (.write w x) c := by
  constructor
  · intro made m mem
    rcases List.mem_cons.mp mem with rfl | mem
    · exact h
    · exact next.passes made m mem
  · intro b c' ended
    exact grows.trans (next.grows b c' ended)

theorem keeps_done (a : α) : Keeps (.done a) := fun _ h => keepsAt_done h a

theorem keeps_fail (e : Failure) : Keeps (.fail e : Plan α) := fun _ h => keepsAt_fail h e

theorem Keeps.bind (first : Keeps x) (second : ∀ a, Keeps (f a)) : Keeps (x >>= f) := by
  intro c balanced
  have kept := first c balanced
  constructor
  · intro made m mem
    rcases Plan.mem_moments_bind mem with mem | ⟨a, m₁, ended, mem⟩
    · exact kept.passes made m mem
    · exact (second a m₁.state (kept.balanced ended)).passes m₁.made m mem
  · intro b c' ended
    rw [Plan.exec_bind] at ended
    obtain ⟨a, c₁, ended, ended'⟩ := bind_eq_ok.mp ended
    exact (kept.grows a c₁ ended).trans
      ((second a c₁ (kept.balanced ended)).grows b c' ended')

/-- In a block the depth is positive, and after it all is as before but for code and labels. -/
theorem Keeps.inBlock {x : Plan Unit} (h : Keeps x) : Keeps (Plan.inBlock x) := by
  intro c balanced
  have kept := h c.opened balanced.opened
  constructor
  · intro made m mem
    rcases List.mem_cons.mp mem with rfl | mem
    · exact balanced
    rcases Plan.mem_moments_bind mem with mem | ⟨_, m₁, ended, mem⟩
    · exact kept.passes made m mem
    -- The body ends as deep as it began, so what is left is the block that was opened.
    have balanced₁ := kept.balanced ended
    have depth : m₁.state.depth = c.depth + 1 := (kept.grows _ _ ended).depth
    have inner : 0 < m₁.state.depth := by
      have := balanced.nonneg
      omega
    rcases List.mem_cons.mp mem with rfl | mem
    · exact balanced₁
    · cases List.mem_singleton.mp mem
      exact balanced₁.closed inner
  · intro b c' ended
    have ended : (x >>= fun _ => Plan.leaveBlock).exec c.opened = .ok b c' := ended
    rw [Plan.exec_bind] at ended
    obtain ⟨_, c₁, body, left⟩ := bind_eq_ok.mp ended
    cases left
    exact grows_closed balanced.layered (kept.grows _ c₁ body)

end

/-! ### The plans of the compiler -/

theorem keeps_emit (i : Instr) : Keeps (Plan.emit i) :=
  fun c h => keepsAt_write h (grows_add c i) (keepsAt_done (h.add i) ())

theorem keeps_freshLabel : Keeps Plan.freshLabel := by
  intro c h
  constructor
  · intro made m mem
    rcases List.mem_cons.mp mem with rfl | mem
    · exact h
    · cases List.mem_singleton.mp mem
      exact h.takeLabels 1
  · intro name c' ended
    cases ended
    exact grows_takeLabels c 1

theorem keeps_addLocal (name : String) : Keeps (Plan.addLocal name) := by
  intro c h
  have grows : Grows c (Write.apply (.addLocal name) c) :=
    ⟨rfl, Nat.le_refl _, List.prefix_refl _, .push _ _, .refl _ _, .refl _ _, fun _ => rfl⟩
  exact keepsAt_look (keepsAt_write h grows (keeps_emit _ _ (h.addLocal name)))

/-- A global is new and is added outside all blocks. -/
theorem keepsAt_addGlobal (h : Balanced c) (top : c.depth = 0) (new : c.varSymbol? name = none) :
    KeepsAt (Plan.addGlobal name) c := by
  have grows : Grows c (Write.apply (.addGlobal name) c) :=
    ⟨rfl, Nat.le_refl _, List.prefix_refl _, .refl _ _, .push _ _, .refl _ _,
      fun deep => absurd top deep⟩
  exact keepsAt_look (keepsAt_write h grows (keeps_emit _ _ (h.addGlobal top new)))

theorem keeps_pushInt (i : Int) : Keeps (Plan.pushInt i) := by
  unfold Plan.pushInt
  split
  · exact keeps_emit _
  · exact keeps_fail _

theorem keeps_targetName (target : Expr) : Keeps (Plan.targetName target) := by
  unfold Plan.targetName
  split
  · exact keeps_done _
  · exact keeps_fail _

theorem keeps_emitBinary (op : Token) : Keeps (Plan.emitBinary op) := by
  unfold Plan.emitBinary
  split
  · exact keeps_emit _
  · exact keeps_done _

theorem keeps_load (name : String) (line : Line) : Keeps (Plan.load name line) := by
  refine fun c balanced => keepsAt_look ?_
  split
  · exact keeps_fail _ c balanced
  · split
    · exact keeps_emit _ c balanced
    · exact keeps_emit _ c balanced

theorem keeps_store (name : String) : Keeps (Plan.store name) := by
  refine fun c balanced => keepsAt_look ?_
  split
  · rename_i new
    split
    · rename_i top
      exact keepsAt_addGlobal balanced (by simpa using top) new
    · exact keeps_addLocal name c balanced
  · split
    · exact keeps_emit _ c balanced
    · exact keeps_emit _ c balanced

theorem keeps_declare (name : String) (arity : Nat) (line : Line) :
    Keeps (Plan.declare name arity line) := by
  refine fun c balanced => keepsAt_look ?_
  split
  · exact keeps_fail _ c balanced
  · split
    · exact keeps_fail _ c balanced
    · exact keepsAt_write balanced (grows_declared c name arity)
        (keepsAt_done (balanced.declared name arity) ())

theorem keeps_addParams (ps : List Param) : Keeps (Plan.addParams ps) := by
  induction ps with
  | nil => exact keeps_done ()
  | cons p ps ih => exact (keeps_addLocal p.name).bind fun _ => ih

mutual
theorem keeps_expr (e : Expr) : Keeps (Plan.expr e) := by
  match e with
  | .integer value line =>
    rw [Plan.expr]
    exact keeps_pushInt value
  | .real value line | .bool value line | .text value line =>
    rw [Plan.expr]
    exact keeps_emit _
  | .binary op left right line =>
    rw [Plan.expr]
    exact (keeps_expr left).bind fun _ => (keeps_expr right).bind fun _ => keeps_emitBinary op
  | .unary op operand line =>
    rw [Plan.expr]
    refine (keeps_expr operand).bind fun _ => ?_
    split
    · exact keeps_emit _
    · exact (keeps_emit _).bind fun _ => keeps_emit _
    · exact keeps_done ()
  | .logical op left right line =>
    rw [Plan.expr]
    refine (keeps_expr left).bind fun _ => (keeps_expr right).bind fun _ => ?_
    split
    · exact keeps_emit _
    · exact keeps_emit _
    · exact keeps_done ()
  | .group inner line =>
    rw [Plan.expr]
    exact keeps_expr inner
  | .name n line =>
    rw [Plan.expr]
    exact keeps_load n line
  | .call n args line =>
    have args := keeps_exprs args
    rw [Plan.expr]
    refine fun c balanced => keepsAt_look ?_
    split
    · exact keeps_fail _ c balanced
    · split
      · exact keeps_fail _ c balanced
      · exact (args.bind fun _ => (keeps_emit _).bind fun _ => keeps_emit _) c balanced

theorem keeps_exprs (es : List Expr) : Keeps (Plan.exprs es) := by
  match es with
  | [] =>
    rw [Plan.exprs]
    exact keeps_done ()
  | e :: es =>
    rw [Plan.exprs]
    exact (keeps_expr e).bind fun _ => keeps_exprs es
end

mutual
theorem keeps_stmt (s : Stmt) : Keeps (Plan.stmt s) := by
  match s with
  | .print value ending line =>
    unfold Plan.stmt
    refine (keeps_expr value).bind fun _ => ?_
    split
    · exact keeps_emit _
    · exact keeps_emit _
  | .branch test thenBlock elseBlock line =>
    have thenPart := (keeps_block thenBlock).inBlock
    have elsePart := keeps_elsePart elseBlock
    rw [Plan.stmt]
    refine (keeps_expr test).bind fun _ => ?_
    refine keeps_freshLabel.bind fun _ => keeps_freshLabel.bind fun _ =>
      keeps_freshLabel.bind fun _ => ?_
    refine (keeps_emit _).bind fun _ => (keeps_emit _).bind fun _ => thenPart.bind fun _ => ?_
    exact (keeps_emit _).bind fun _ => (keeps_emit _).bind fun _ => elsePart.bind fun _ =>
      keeps_emit _
  | .loop test body line =>
    have body := (keeps_block body).inBlock
    rw [Plan.stmt]
    refine keeps_freshLabel.bind fun _ => keeps_freshLabel.bind fun _ =>
      keeps_freshLabel.bind fun _ => ?_
    refine (keeps_emit _).bind fun _ => (keeps_expr test).bind fun _ => ?_
    refine (keeps_emit _).bind fun _ => (keeps_emit _).bind fun _ => body.bind fun _ => ?_
    exact (keeps_emit _).bind fun _ => keeps_emit _
  | .assign target value line =>
    rw [Plan.stmt]
    exact (keeps_expr value).bind fun _ => (keeps_targetName target).bind keeps_store
  | .assignLocal target value line =>
    rw [Plan.stmt]
    exact (keeps_expr value).bind fun _ => (keeps_targetName target).bind keeps_addLocal
  | .count .. =>
    rw [Plan.stmt]
    exact keeps_done ()
  | .func name params body line =>
    have body := ((keeps_addParams params).bind fun _ => keeps_block body).inBlock
    rw [Plan.stmt]
    refine (keeps_declare name params.length line).bind fun _ => ?_
    refine keeps_freshLabel.bind fun _ => (keeps_emit _).bind fun _ =>
      (keeps_emit _).bind fun _ => body.bind fun _ => ?_
    exact (keeps_emit _).bind fun _ => (keeps_emit _).bind fun _ => keeps_emit _
  | .call n args line =>
    rw [Plan.stmt]
    exact (keeps_expr _).bind fun _ => keeps_emit _
  | .ret value line =>
    rw [Plan.stmt]
    exact (keeps_expr value).bind fun _ => keeps_emit _

theorem keeps_block (b : Block) : Keeps (Plan.block b) := by
  match b with
  | .mk ss line =>
    rw [Plan.block]
    exact keeps_stmts ss

theorem keeps_elsePart (o : Option Block) : Keeps (Plan.elsePart o) := by
  match o with
  | none =>
    rw [Plan.elsePart]
    exact keeps_done ()
  | some b =>
    rw [Plan.elsePart]
    exact (keeps_block b).inBlock

theorem keeps_stmts (ss : List Stmt) : Keeps (Plan.stmts ss) := by
  match ss with
  | [] =>
    rw [Plan.stmts]
    exact keeps_done ()
  | s :: ss =>
    rw [Plan.stmts]
    exact (keeps_stmt s).bind fun _ => keeps_stmts ss
end

theorem keeps_part (p : Part) : Keeps (Plan.part p) := by
  cases p with
  | expr e => exact keeps_expr e
  | exprs es => exact keeps_exprs es
  | stmt s => exact keeps_stmt s
  | stmts ss => exact keeps_stmts ss
  | otherwise o => exact keeps_elsePart o

theorem keeps_generate (p : Program) : Keeps (Plan.generate p) := by
  have inner : Keeps (Plan.program p) := by
    cases p with
    | expr e => exact keeps_expr e
    | stmt s => exact keeps_stmt s
    | block b => exact keeps_block b
    | inert => exact keeps_done ()
  exact (keeps_emit _).bind fun _ => inner.bind fun _ => keeps_emit _

/-! ### Labels -/

/-- The labels with the first numbers, as many as a state counts. -/
def numbered (c : Compiler) : List String := (List.range c.labels).map fun i => labelName (i + 1)

theorem nodup_numbered (c : Compiler) : c.numbered.Nodup := by
  refine List.pairwise_map.mpr (List.nodup_range.imp fun {i j} ne same => ?_)
  exact ne (Nat.succ.inj (labelName_inj same))

theorem numbered_takeLabels (c : Compiler) :
    (c.takeLabels 1).numbered = c.numbered ++ [labelName (c.labels + 1)] := by
  simp [numbered, takeLabels, List.range_succ]

theorem numbered_apply (w : Write) (c : Compiler) : (w.apply c).numbered = c.numbered := by
  cases w <;> rfl

/-- At every moment the labels made are those that the state counts. -/
theorem made_eq_numbered {α : Type} {x : Plan α} {m₀ m : Moment}
    (start : m₀.made = m₀.state.numbered) (mem : m ∈ x.moments m₀) :
    m.made = m.state.numbered := by
  induction x generalizing m₀ with
  | done a =>
    cases List.mem_singleton.mp mem
    exact start
  | fail e =>
    cases List.mem_singleton.mp mem
    exact start
  | look next ih => exact ih m₀.state start mem
  | label next ih =>
    rcases List.mem_cons.mp mem with rfl | mem
    · exact start
    · refine ih _ ?_ mem
      rw [numbered_takeLabels, start]
  | write w next ih =>
    rcases List.mem_cons.mp mem with rfl | mem
    · exact start
    · refine ih ?_ mem
      rw [numbered_apply, start]

/-! ### Every moment -/

/-- A block has been left: its locals, which come last, are gone, with one `pop` for each. -/
def Popped (c c' : Compiler) : Prop :=
  ∃ gone, c.locals = c'.locals ++ gone ∧ (∀ s ∈ gone, s.depth = c.depth) ∧
    (∀ s ∈ c'.locals, s.depth < c.depth) ∧
    c'.code = c.code ++ Array.replicate gone.size .pop

theorem Balanced.popped (h : Balanced c) : Popped c c.closed := by
  obtain ⟨gone, split, deeper⟩ := dropDeeper_append (c.depth - 1) c.locals
  refine ⟨gone, split, ?_, ?_, ?_⟩
  · intro s mem
    have above := deeper s mem
    have below := h.locals.le s (split ▸ Array.mem_append_right _ mem)
    omega
  · intro s mem
    have below := (h.locals.dropDeeper (c.depth - 1)).le s mem
    omega
  · have size : c.locals.size - c.closed.locals.size = gone.size := by
      have sizes := congrArg Array.size split
      rw [Array.size_append] at sizes
      change c.locals.size - (dropDeeper (c.depth - 1) c.locals).size = _
      omega
    rw [← size]
    rfl

/-- At every moment of a compilation, also of one that will fail, the state is balanced and no label
has been made twice. From there any part that compiles leaves the depth as it is and adds symbols at
the end only, all of that depth; and leaving a block emits one `pop` for each local that it
removes. -/
theorem scopes_balanced {p : Program} {m : Moment}
    (reached : m ∈ (Plan.generate p).moments ⟨[], empty⟩) :
    (Plan.generate p).exec = generate p ∧ Balanced m.state ∧ m.made.Nodup ∧
      (∀ part c', Part.compile part m.state = .ok () c' → Grows m.state c') ∧
      ∃ c', closeBlock m.state = .ok () c' ∧ Popped m.state c' := by
  have balanced := (keeps_generate p empty balanced_empty).passes [] m reached
  refine ⟨Plan.exec_generate p, balanced, ?_, ?_, m.state.closed, rfl, balanced.popped⟩
  · rw [made_eq_numbered rfl reached]
    exact nodup_numbered m.state
  · intro part c' compiled
    rw [← Plan.exec_part] at compiled
    exact (keeps_part part m.state balanced).grows () c' compiled

/-- The tree of `y := true if y then local x := y func f(a) z := a end end`. -/
def nestedScopes : Program :=
  .block (.mk
    [.assign (.name "y" 1) (.bool true 1) 1,
      .branch (.name "y" 1)
        (.mk
          [.assignLocal (.name "x" 1) (.name "y" 1) 1,
            .func "f" [⟨"a", 1⟩] (.mk [.assign (.name "z" 1) (.name "a" 1) 1] 1) 1] 1)
        none 1] 1)

theorem nestedScopes_balanced :
    ∃ m ∈ (Plan.generate nestedScopes).moments ⟨[], empty⟩,
      m.made = ["LBL1", "LBL2", "LBL3", "LBL4"] ∧
      m.state.locals.toList.map (fun s => (s.name, s.depth)) = [("x", 1), ("a", 2), ("z", 2)] ∧
      Balanced m.state ∧ m.made.Nodup ∧
      (∀ part c', Part.compile part m.state = .ok () c' → Grows m.state c') ∧
      ∃ c', closeBlock m.state = .ok () c' ∧ Popped m.state c' := by
  have reached := List.mem_of_getElem?
    (rfl : ((Plan.generate nestedScopes).moments ⟨[], empty⟩)[24]? = some _)
  exact ⟨_, reached, rfl, rfl, (scopes_balanced reached).2⟩

end ScriptLang.Compiler
