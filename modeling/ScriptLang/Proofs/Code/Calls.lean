import ScriptLang.Proofs.Code.Heights
import ScriptLang.Proofs.Code.Sites
import ScriptLang.Proofs.Machine.Spots

/-!
The cells of every call in compiled code, wherever its function is declared.

Where the code of a state ends, the running call has its arguments and one cell for each local that
its body has defined so far. The code of the body leaves the arguments alone up to its end
(`Intact`). As for points, the proofs go backwards through the code of a part; since nothing is said
of whether an instruction succeeds, functions may be declared anywhere.
-/

namespace ScriptLang.Compiler

open Machine (Spot Goes Until Lenient Located effect?)

variable {code : Array Instr} {labels : Labels} {R Q : Spot → Prop} {root : Site}
  {c c₁ c₂ c' last : Compiler} {f n o z : Nat}

/-! ### Spots in compiled code -/

/-- What is asked at a spot: that it is one of `R`, and that its instruction leads into `P`. -/
def Leads (code : Array Instr) (labels : Labels) (R P : Spot → Prop) (p : Spot) : Prop :=
  R p ∧ Goes code labels P p

theorem lenient_leads : Lenient (Leads code labels R) :=
  fun _ _ _ h sub => ⟨h.1, h.2.mono sub⟩

/-- From a spot the code stays in `R` until it comes to `Q`. -/
abbrev Flows (code : Array Instr) (labels : Labels) (R Q : Spot → Prop) : Spot → Prop :=
  Until (Leads code labels R) Q

theorem flows_step {p : Spot} (here : R p) (goes : Goes code labels (Flows code labels R Q) p) :
    Flows code labels R Q p :=
  Until.step lenient_leads ⟨here, goes⟩

/-- The spot where the code of a state ends, in a call of the function `o`. -/
def spot (c : Compiler) (f n o : Nat) : Spot := ⟨c.code.size, f, n, o, none⟩

theorem spot_add (c : Compiler) (i : Instr) (f n o : Nat) :
    (c.add i).spot f n o = ⟨c.code.size + 1, f, n, o, none⟩ := by
  rw [spot, size_add]

/-- Code of the function `o` may be anywhere while `f` cells are left alone. -/
def Free (R : Spot → Prop) (f o : Nat) : Prop := ∀ pc n k, R ⟨pc, f, n, o, k⟩

theorem flows_plain {i : Instr} {t g : Nat} (free : Free R f o) (begins : (c.add i).Begins code)
    (effect : effect? i = some (t, g))
    (next : Flows code labels R Q ((c.add i).spot f (n + g) o)) :
    Flows code labels R Q (c.spot f (n + t) o) := by
  rw [spot_add] at next
  exact flows_step (free _ _ _) (.plain begins.fetch effect next)

/-- Some instructions that each remove a cell. -/
theorem flows_pops {a : Nat} (j : Nat) (here : ∀ pc n, a ≤ pc → R ⟨pc, f, n, o, none⟩)
    (pops : ∀ i < j, code[a + i]? = some .pop)
    (next : Flows code labels R Q ⟨a + j, f, n, o, none⟩) :
    Flows code labels R Q ⟨a, f, n + j, o, none⟩ := by
  induction j generalizing a with
  | zero => exact next
  | succ j ih =>
    have first := pops 0 (Nat.succ_pos j)
    refine flows_step (here _ _ (Nat.le_refl a)) (.plain (t := 1) (g := 0) first rfl ?_)
    refine ih (a := a + 1) (fun pc n le => here pc n (by omega)) ?_ ?_
    · intro i lt
      rw [Nat.add_right_comm, Nat.add_assoc]
      exact pops (i + 1) (Nat.succ_lt_succ lt)
    · rw [Nat.add_right_comm, Nat.add_assoc]
      exact next

/-- All cells of a call are removed, also those that were left alone. -/
theorem flows_freed {a j : Nat} (here : ∀ pc f n, a ≤ pc → R ⟨pc, f, n, o, none⟩)
    (size : f + n = j) (pops : ∀ i < j, code[a + i]? = some .pop)
    (next : Flows code labels R Q ⟨a + j, 0, 0, o, none⟩) :
    Flows code labels R Q ⟨a, f, n, o, none⟩ := by
  cases j with
  | zero =>
    obtain ⟨rfl, rfl⟩ := Nat.add_eq_zero_iff.mp size
    exact next
  | succ j =>
    refine flows_step (here _ _ _ (Nat.le_refl a)) (.frees (pops 0 (Nat.succ_pos j)) size ?_)
    rw [← Nat.zero_add j]
    refine flows_pops (a := a + 1) j (fun pc n le => here pc 0 n (by omega)) ?_ ?_
    · intro i lt
      rw [Nat.add_right_comm, Nat.add_assoc]
      exact pops (i + 1) (Nat.succ_lt_succ lt)
    · rw [Nat.add_right_comm, Nat.add_assoc]
      exact next

/-- Leaving a block removes its locals from the stack. -/
theorem flows_closed (free : Free R f o) (begins : c.closed.Begins code)
    (le : z ≤ c.closed.locals.size)
    (next : Flows code labels R Q (c.closed.spot f (c.closed.locals.size - z) o)) :
    Flows code labels R Q (c.spot f (c.locals.size - z) o) := by
  have shrinks : c.closed.locals.size ≤ c.locals.size := size_dropDeeper_le _ _
  have height : c.locals.size - z =
      c.closed.locals.size - z + (c.locals.size - c.closed.locals.size) := by omega
  rw [spot, height]
  apply flows_pops _ (fun pc n _ => free pc n none) fun j lt => fetch_closed begins lt
  rw [← size_closed]
  exact next

theorem flows_params (ps : List Param) (free : Free R f o)
    (begins : (c.withParams ps).Begins code)
    (next : Flows code labels R Q ((c.withParams ps).spot f n o)) :
    Flows code labels R Q (c.spot f n o) := by
  induction ps generalizing c with
  | nil => exact next
  | cons p ps ih =>
    have here : (c.withLocal p.name).Begins code :=
      begins.of_prefix (grows_withParams (c.withLocal p.name) ps).code
    have rest := ih (c := c.withLocal p.name) begins next
    exact flows_plain (t := 0) (g := 0) free here rfl rest

/-! ### Known functions -/

/-- Every function that a state knows is declared in the program. -/
def Known (root : Site) (c : Compiler) : Prop :=
  ∀ s ∈ c.functions, ∃ d : Decl, Reaches root d.site ∧ s.name = d.name ∧
    s.arity = d.params.length

theorem Known.same (known : Known root c) (functions : c'.functions = c.functions) :
    Known root c' := by
  unfold Known
  rw [functions]
  exact known

theorem Known.declared {d : Decl} (known : Known root d.state) (reached : Reaches root d.site) :
    Known root (d.state.declared d.name d.params.length) := by
  intro s mem
  rcases Array.mem_push.mp mem with mem | rfl
  · exact known s mem
  · exact ⟨d, reached, rfl, rfl⟩

theorem Known.stmt {s : Stmt} {vs : Vars} (known : Known root c)
    (reached : Reaches root ⟨.stmt s, vs, c⟩) (emits : Emits (.stmt s) c c')
    (layered : Layered c) : Known root c' := by
  cases func : s.isFunc with
  | false => exact known.same ((emits.kept layered).functions func)
  | true =>
    cases emits with
    | @func name ps body line _ c₁ _ _ inner =>
      have declared := Known.declared (d := ⟨name, ps, body, line, vs, c⟩) known reached
      exact declared.same (func_scope layered inner).functions
    | _ => cases func

theorem Turn.known {a b : Site} (turn : Turn a b) (reached : Reaches root a)
    (layered : Layered a.state) (known : Known root a.state) : Known root b.state := by
  cases turn with
  | same same | inside same => exact known.same same.functions
  | after child emits => exact known.stmt (reached.down child) emits layered
  | @enters name ps body line part state =>
    have here : Reaches root (Decl.site ⟨name, ps, body, line, a.vars, a.state⟩) := by
      rw [Decl.site, ← part]
      exact reached
    have functions : b.state.functions = (a.state.declared name ps.length).functions := by
      rw [state, bodyOf, functions_withParams]
      rfl
    exact (Known.declared known here).same functions

/-- A program with its code, in which labels are found. -/
structure Whole (code : Array Instr) (labels : Labels) (root : Site) (last : Compiler) :
    Prop where
  emits : Emits root.part root.state last
  layered : Layered root.state
  known : Known root root.state
  begins : last.Begins code
  located : Located code labels

/-- The spot where a call of a function begins. -/
def Decl.start (d : Decl) : Spot := ⟨d.entry, d.params.length, 0, d.entry, none⟩

/-- The spots where calls begin. -/
def Entries (root : Site) (p : Spot) : Prop := ∃ d : Decl, Reaches root d.site ∧ p = d.start

theorem Whole.site {p : Part} {vs : Vars} (whole : Whole code labels root last)
    (reached : Reaches root ⟨p, vs, c⟩) (emits : Emits p c c') :
    Layered c ∧ c'.Begins code := by
  obtain ⟨d', inner⟩ := reached.reached whole.emits whole.layered
  obtain rfl := emits.unique inner.emits.compiles
  exact ⟨inner.layered, inner.after.trans whole.begins⟩

theorem Whole.fetch_entry {d : Decl} (whole : Whole code labels root last)
    (reached : Reaches root d.site) : code[d.entry]? = some (.label d.name) := by
  obtain ⟨d', inner⟩ := reached.reached whole.emits whole.layered
  obtain ⟨c₁, body, rfl⟩ := Decl.emits_inner inner.emits
  have begins : (d.state.funcStart d.name d.params.length).Begins code :=
    (d.prefix_inner.trans (body.code_prefix (Decl.layered_inner inner.layered))).trans
      (((prefix_funcEnd c₁ _).trans inner.after).trans whole.begins)
  have fetch := Begins.fetch begins
  rw [size_add] at fetch
  exact fetch

/-- A call that compiles enters a function of the program with as many arguments as it has
parameters. -/
theorem Whole.entered {a : Site} {x : String} {s : Symbol} (whole : Whole code labels root last)
    (reached : Reaches root a) (found : a.state.funcSymbol? x = some s) :
    ∃ d : Decl, Reaches root d.site ∧ labels.lookup? x = some d.entry ∧
      s.arity = d.params.length := by
  have known : Known root a.state := reached.keeps whole.emits whole.layered whole.known
    fun _ _ above layered turn known => turn.known above layered known
  obtain ⟨mem, rfl⟩ := funcSymbol?_some found
  obtain ⟨d, below, name, arity⟩ := known s mem
  rw [name]
  exact ⟨d, below, whole.located (whole.fetch_entry below), arity⟩

/-! ### Parts -/

/-- Between two states the code adds `n` cells. -/
def Raises (code : Array Instr) (labels : Labels) (R : Spot → Prop) (root : Site) (n : Nat)
    (c c' : Compiler) : Prop :=
  ∀ ⦃Q f m o⦄, (∀ e, Entries root e → Q e) → Free R f o →
    Flows code labels R Q (c'.spot f (m + n) o) → Flows code labels R Q (c.spot f m o)

/-- Between two states the code leaves just the locals on the stack. The first `z` of them belong to
the calls around the running one, or are its arguments. -/
def Levels (code : Array Instr) (labels : Labels) (R : Spot → Prop) (root : Site)
    (c c' : Compiler) : Prop :=
  ∀ ⦃Q f o z⦄, (∀ e, Entries root e → Q e) → Free R f o → z ≤ c.locals.size →
    Flows code labels R Q (c'.spot f (c'.locals.size - z) o) →
    Flows code labels R Q (c.spot f (c.locals.size - z) o)

/-- What is to be shown of the code of a part. -/
def Part.Flow (code : Array Instr) (labels : Labels) (R : Spot → Prop) (root : Site) :
    Part → Compiler → Compiler → Prop
  | .expr _ => Raises code labels R root 1
  | .exprs es => Raises code labels R root es.length
  | .stmt _ | .stmts _ | .otherwise _ => Levels code labels R root

theorem Raises.operation {i : Instr} (left : Raises code labels R root 1 c c₁)
    (right : Raises code labels R root 1 c₁ c₂) (begins : (c₂.add i).Begins code)
    (effect : effect? i = some (2, 1)) : Raises code labels R root 1 c (c₂.add i) := by
  intro Q f m o sub free next
  exact left sub free (right sub free (flows_plain (t := 2) (g := 1) free begins effect next))

/-- A statement that uses the value of an expression. -/
theorem levels_use {i : Instr} (value : Raises code labels R root 1 c c₁)
    (same : c₂.code = c₁.code) (locals : c₂.locals = c.locals) (begins : (c₂.add i).Begins code)
    (effect : effect? i = some (1, 0)) : Levels code labels R root c (c₂.add i) := by
  intro Q f o z sub free le next
  have used := flows_plain (t := 1) (g := 0) free begins effect next
  rw [spot, same, add, locals] at used
  exact value sub free used

theorem levels_withLocal {x : String} (value : Raises code labels R root 1 c c₁)
    (same : SameScope c c₁) (begins : (c₁.withLocal x).Begins code) :
    Levels code labels R root c (c₁.withLocal x) := by
  intro Q f o z sub free le next
  have size : (c₁.withLocal x).locals.size - z = c.locals.size - z + 1 := by
    have pushed : (c₁.withLocal x).locals.size = c₁.locals.size + 1 := Array.size_push _
    rw [pushed, same.locals]
    omega
  rw [size] at next
  exact value sub free (flows_plain (t := 0) (g := 0) free begins rfl next)

theorem levels_stores {x : String} (value : Raises code labels R root 1 c c₁)
    (same : SameScope c c₁) (stores : Stores c₁ x c') (begins : c'.Begins code) :
    Levels code labels R root c c' := by
  cases stores with
  | newGlobal => exact levels_use value rfl same.locals begins rfl
  | newLocal => exact levels_withLocal value same begins
  | global | loc => exact levels_use value rfl same.locals begins rfl

/-- A block, with the instructions that remove its locals. -/
theorem flows_block (body : Levels code labels R root c.opened c₁) (layered : Layered c)
    (grown : Grows c.opened c₁) (begins : c₁.closed.Begins code)
    (sub : ∀ e, Entries root e → Q e) (free : Free R f o) (le : z ≤ c.locals.size)
    (next : Flows code labels R Q (c₁.closed.spot f (c.locals.size - z) o)) :
    Flows code labels R Q (c.spot f (c.locals.size - z) o) := by
  have locals := (closed_scope layered grown).locals
  refine body sub free le (flows_closed free begins ?_ ?_)
  · rw [locals]
    exact le
  · rw [locals]
    exact next

theorem levels_branch {test : Expr} {b : Block} {other : Option Block} {c₃ : Compiler}
    (located : Located code labels) (layered : Layered c)
    (begins : (c₃.ending (c₁.labels + 3)).Begins code)
    (test : Emits (.expr test) c c₁) (body : Emits (.stmts b.stmts) c₁.thenStart.opened c₂)
    (rest : Emits (.otherwise other) (c₂.closed.elseStart c₁.labels) c₃)
    (tested : Raises code labels R root 1 c c₁)
    (done : Levels code labels R root c₁.thenStart.opened c₂)
    (done' : Levels code labels R root (c₂.closed.elseStart c₁.labels) c₃) :
    Levels code labels R root c (c₃.ending (c₁.labels + 3)) := by
  intro Q f o z sub free le next
  have same₁ := test.grown.1.symbols.trans (thenStart_scope c₁)
  have layered₁ := same₁.layered layered
  have grown := body.grown layered₁.opened
  have same₂ := same₁.trans ((closed_scope layered₁ grown).trans (elseStart_scope _ c₁.labels))
  have layered₂ := same₂.layered layered
  have same₃ := same₂.trans (rest.otherwise_scope layered₂)
  have begins₂ : (c₂.closed.elseStart c₁.labels).Begins code :=
    begins.of_add.of_prefix (rest.grown layered₂).code
  have begins₁ : c₁.thenStart.Begins code :=
    begins₂.of_add.of_add.of_prefix (grown.code.trans (prefix_closed c₂))
  -- From the end of the statement backwards.
  have exit : Flows code labels R Q (c₃.spot f (c.locals.size - z) o) := by
    rw [← same₃.locals]
    exact flows_plain (t := 0) (g := 0) free begins rfl next
  have atElse : Flows code labels R Q
      ((c₂.closed.add (.jump (labelName (c₁.labels + 3)))).spot f (c.locals.size - z) o) := by
    refine flows_plain (t := 0) (g := 0) free begins₂ rfl ?_
    have other := done' (z := z) sub free (same₂.locals ▸ le) (same₃.locals ▸ exit)
    rw [same₂.locals] at other
    exact other
  have atEnd : Flows code labels R Q (c₂.closed.spot f (c₁.thenStart.locals.size - z) o) := by
    rw [same₁.locals]
    exact flows_step (free _ _ _) (.jump begins₂.of_add.fetch (located begins.fetch) exit)
  have atThen := flows_block done layered₁ grown begins₂.of_add.of_add sub free
    (same₁.locals ▸ le) atEnd
  rw [same₁.locals] at atThen
  have jumped := flows_plain (t := 0) (g := 0) free begins₁ rfl atThen
  rw [spot_add] at jumped
  exact tested sub free (flows_step (free _ _ _)
    (.jumpIfZero begins₁.of_add.fetch (located begins₂.fetch) jumped atElse))

theorem levels_loop {test : Expr} {b : Block} (located : Located code labels)
    (layered : Layered c)
    (begins : ((c₂.closed.goBack c.labels).ending (c.labels + 3)).Begins code)
    (test : Emits (.expr test) c.loopStart c₁)
    (body : Emits (.stmts b.stmts) (c₁.bodyStart c.labels).opened c₂)
    (tested : Raises code labels R root 1 c.loopStart c₁)
    (done : Levels code labels R root (c₁.bodyStart c.labels).opened c₂) :
    Levels code labels R root c ((c₂.closed.goBack c.labels).ending (c.labels + 3)) := by
  intro Q f o z sub free le next
  have same₁ := ((loopStart_scope c).trans test.grown.1.symbols).trans
    (bodyStart_scope c₁ c.labels)
  have layered₁ := same₁.layered layered
  have grown := body.grown layered₁.opened
  have same₂ := same₁.trans (closed_scope layered₁ grown)
  have begins₂ : (c₁.bodyStart c.labels).Begins code :=
    begins.of_add.of_add.of_prefix (grown.code.trans (prefix_closed c₂))
  have begins₁ : c.loopStart.Begins code := begins₂.of_add.of_add.of_prefix test.grown.2
  have exit : Flows code labels R Q
      ((c₂.closed.goBack c.labels).spot f (c.locals.size - z) o) := by
    rw [← same₂.locals]
    exact flows_plain (t := 0) (g := 0) free begins rfl next
  -- The way back leads to the label in front of the test, where the loop is cut.
  refine .fix (E := (· = c.spot f (c.locals.size - z) o)) lenient_leads ?_ (.inl (.inr rfl))
  rintro _ rfl
  have sub' : ∀ e, Entries root e → Q e ∨ e = c.spot f (c.locals.size - z) o :=
    fun e entry => .inl (sub e entry)
  have back : Flows code labels R (fun q => Q q ∨ q = c.spot f (c.locals.size - z) o)
      (c₂.closed.spot f ((c₁.bodyStart c.labels).locals.size - z) o) := by
    rw [same₁.locals]
    exact flows_step (free _ _ _)
      (.jump begins.of_add.fetch (located begins₁.fetch) (.inl (.inr rfl)))
  have atBody := flows_block done layered₁ grown begins.of_add.of_add sub' free
    (same₁.locals ▸ le) back
  rw [same₁.locals] at atBody
  have jumped := flows_plain (t := 0) (g := 0) free begins₂ rfl atBody
  rw [spot_add] at jumped
  have atTest := tested sub' free (flows_step (free _ _ _) (.jumpIfZero begins₂.of_add.fetch
    (located begins.fetch) jumped (exit.mono lenient_leads fun _ => .inl)))
  rw [loopStart, spot_add] at atTest
  exact ⟨free _ _ _, .plain (t := 0) (g := 0) begins₁.fetch rfl atTest⟩

/-- A declaration jumps over its body. -/
theorem levels_func {name : String} {ps : List Param} {b : Block} (located : Located code labels)
    (layered : Layered c) (begins : (c₁.closed.funcEnd.ending (c.labels + 1)).Begins code)
    (body : Emits (.stmts b.stmts) (c.bodyOf name ps) c₁) :
    Levels code labels R root c (c₁.closed.funcEnd.ending (c.labels + 1)) := by
  intro Q f o z sub free le next
  have locals : (c₁.closed.funcEnd.ending (c.labels + 1)).locals = c.locals :=
    (func_scope layered body).locals
  have begins' : (c.funcStart name ps.length).Begins code :=
    begins.of_prefix (((prefix_bodyOf c name ps).trans
      (body.code_prefix (bodyOf_layered layered))).trans (prefix_funcEnd c₁ _))
  rw [locals] at next
  have ending := flows_plain (t := 0) (g := 0) free begins rfl next
  exact flows_step (free _ _ _) (.jump begins'.of_add.fetch (located begins.fetch) ending)

/-- Before a part of the program the code stays in `R` if it does so after it. -/
theorem Emits.flow {p : Part} {vs : Vars} (whole : Whole code labels root last)
    (h : Emits p c c') (reached : Reaches root ⟨p, vs, c⟩) :
    p.Flow code labels R root c c' := by
  have site := whole.site reached h
  induction h generalizing vs with
  | integer | real | bool | text =>
    intro Q f m o sub free next
    exact flows_plain (t := 0) free site.2 rfl next
  | name loads =>
    intro Q f m o sub free next
    cases loads with
    | global | loc => exact flows_plain (t := 0) free site.2 rfl next
  | binary _ left right ih ih' =>
    have reached₁ := reached.down .left
    have reached₂ := reached.down (.right left.compiles)
    exact (ih reached₁ (whole.site reached₁ left)).operation
      (ih' reached₂ (whole.site reached₂ right)) site.2 rfl
  | logical _ left right ih ih' =>
    have reached₁ := reached.down .leftWord
    have reached₂ := reached.down (.rightWord left.compiles)
    exact (ih reached₁ (whole.site reached₁ left)).operation
      (ih' reached₂ (whole.site reached₂ right)) site.2 rfl
  | minus _ inner ih =>
    intro Q f m o sub free next
    have reached₁ := reached.down .operand
    exact ih reached₁ (whole.site reached₁ inner) sub free
      (flows_plain (t := 1) (g := 1) free site.2 rfl next)
  | tilde _ inner ih =>
    intro Q f m o sub free next
    have reached₁ := reached.down .operand
    have operation := flows_plain (n := m) (t := 2) (g := 1) free site.2 rfl next
    exact ih reached₁ (whole.site reached₁ inner) sub free
      (flows_plain (t := 0) (g := 1) free site.2.of_add rfl operation)
  | plus _ inner ih =>
    have reached₁ := reached.down .operand
    exact ih reached₁ (whole.site reached₁ inner)
  | group inner ih =>
    have reached₁ := reached.down .grouped
    exact ih reached₁ (whole.site reached₁ inner)
  | @call x es line s c c₁ found arity args ih =>
    intro Q f m o sub free next
    have reached₁ := reached.down .args
    obtain ⟨d, below, label, count⟩ := whole.entered reached found
    have entry : Flows code labels R Q ⟨d.entry, es.length, 0, d.entry, none⟩ := by
      rw [← arity, count]
      exact .inl (sub _ ⟨d, below, rfl⟩)
    rw [spot_add, size_add] at next
    have enters := flows_step (free _ _ _)
      (.enter (n := m) (size_add c₁ _ ▸ site.2.fetch) label entry next)
    exact ih reached₁ (whole.site reached₁ args) sub free
      (flows_step (free _ _ _) (.counts site.2.of_add.fetch enters))
  | noExprs => exact fun _ _ _ _ _ _ next => next
  | @moreExprs e es c c₁ c₂ first rest ih ih' =>
    intro Q f m o sub free next
    have reached₁ := reached.down .firstArg
    have reached₂ := reached.down (.moreArgs first.compiles)
    have length : m + (e :: es).length = m + 1 + es.length := by
      rw [List.length_cons]
      omega
    rw [length] at next
    exact ih reached₁ (whole.site reached₁ first) sub free
      (ih' reached₂ (whole.site reached₂ rest) sub free next)
  | print value ih | println _ value ih =>
    have reached₁ := reached.down .printed
    exact levels_use (ih reached₁ (whole.site reached₁ value)) rfl value.grown.1.locals site.2 rfl
  | callStmt value ih =>
    have reached₁ := reached.down .called
    exact levels_use (ih reached₁ (whole.site reached₁ value)) rfl value.grown.1.locals site.2 rfl
  | ret value ih =>
    intro Q f o z sub free le next
    have reached₁ := reached.down .returned
    exact ih reached₁ (whole.site reached₁ value) sub free
      (flows_step (free _ _ _) (.leave site.2.fetch))
  | branch test body rest ih ih₁ ih₂ =>
    have reached₁ := reached.down .test
    have reached₂ := reached.down (.thenBlock test.compiles)
    have reached₃ := reached.down (.otherwise test.compiles body.compiles)
    exact levels_branch whole.located site.1 site.2 test body rest
      (ih reached₁ (whole.site reached₁ test)) (ih₁ reached₂ (whole.site reached₂ body))
      (ih₂ reached₃ (whole.site reached₃ rest))
  | noElse => exact fun _ _ _ _ _ _ _ next => next
  | orElse body ih =>
    intro Q f o z sub free le next
    have reached₁ := reached.down .elseBlock
    have grown := body.grown site.1.opened
    rw [(closed_scope site.1 grown).locals] at next
    exact flows_block (ih reached₁ (whole.site reached₁ body)) site.1 grown site.2 sub free le
      next
  | loop test body ih ih₁ =>
    have reached₁ := reached.down .loopTest
    have reached₂ := reached.down (.loopBody test.compiles)
    exact levels_loop whole.located site.1 site.2 test body
      (ih reached₁ (whole.site reached₁ test)) (ih₁ reached₂ (whole.site reached₂ body))
  | assign value _ stores ih =>
    have reached₁ := reached.down .assigned
    exact levels_stores (ih reached₁ (whole.site reached₁ value)) value.grown.1 stores site.2
  | assignLocal value _ ih =>
    have reached₁ := reached.down .assignedLocal
    exact levels_withLocal (ih reached₁ (whole.site reached₁ value)) value.grown.1 site.2
  | count => exact fun _ _ _ _ _ _ _ next => next
  | func _ _ body => exact levels_func whole.located site.1 site.2 body
  | noStmts => exact fun _ _ _ _ _ _ _ next => next
  | moreStmts first rest ih ih' =>
    intro Q f o z sub free le next
    have reached₁ := reached.down .first
    have reached₂ := reached.down (.rest first.compiles)
    have more := (first.grown site.1).locals.size_le
    exact ih reached₁ (whole.site reached₁ first) sub free le
      (ih' reached₂ (whole.site reached₂ rest) sub free (Nat.le_trans le more) next)

/-! ### Whole programs -/

/-- A call begins with its arguments alone, and removes all its cells before it returns nothing. -/
theorem Whole.leads_start {d : Decl} (whole : Whole code labels root last)
    (reached : Reaches root d.site) (body : Emits d.inner.part d.inner.state c₁)
    (free : Free R d.params.length d.entry)
    (tail : ∀ pc f n k, c₁.code.size ≤ pc → R ⟨pc, f, n, d.entry, k⟩)
    (sub : ∀ e, Entries root e → Q e) :
    Leads code labels R (Flows code labels R Q) d.start := by
  obtain ⟨d', inner⟩ := reached.reached whole.emits whole.layered
  obtain ⟨c₁', again, rfl⟩ := Decl.emits_inner inner.emits
  obtain rfl := again.unique body.compiles
  have begins : (c₁'.closed.funcEnd.ending (d.state.labels + 1)).Begins code :=
    inner.after.trans whole.begins
  have begins₁ := begins.of_prefix (prefix_funcEnd c₁' _)
  have layered := Decl.layered_inner inner.layered
  have size : d.inner.state.locals.size = d.state.locals.size + d.params.length :=
    size_withParams _ _
  have older : c₁'.closed.locals.size = d.state.locals.size :=
    congrArg Array.size (func_scope inner.layered body).locals
  have more : d.inner.state.locals.size ≤ c₁'.locals.size := (body.grown layered).locals.size_le
  have le := size_closed c₁'
  -- From the end of the code backwards.
  have nothing : Flows code labels R Q (c₁'.closed.spot 0 0 d.entry) := by
    have leaves : Flows code labels R Q
        ((c₁'.closed.add (.push (.value .nothing))).spot 0 1 d.entry) :=
      flows_step (tail _ _ _ _ (by rw [size_add]; omega)) (.leave (n := 0) begins.of_add.fetch)
    rw [spot_add] at leaves
    exact flows_step (tail _ _ _ _ (by omega))
      (.plain (t := 0) (g := 1) begins.of_add.of_add.fetch rfl leaves)
  have freed : Flows code labels R Q (c₁'.spot d.params.length
      (c₁'.locals.size - d.inner.state.locals.size) d.entry) := by
    rw [spot, le] at nothing
    refine flows_freed (fun pc f n => tail pc f n none) ?_
      (fun i lt => fetch_closed begins.of_add.of_add.of_add lt) nothing
    omega
  have entered := body.flow whole (reached.down d.child) sub free (Nat.le_refl _) freed
  rw [Nat.sub_self] at entered
  have params := flows_params (c := (d.state.funcStart d.name d.params.length).opened) d.params
    free (begins₁.of_prefix (body.code_prefix layered)) entered
  have pc : (d.state.funcStart d.name d.params.length).opened.code.size = d.entry + 1 := by
    simp [opened, funcStart, declared, takeLabels, Decl.entry]
  rw [spot, pc] at params
  exact ⟨free _ _ _, .plain (t := 0) (g := 0) (whole.fetch_entry reached) rfl params⟩

/-- Up to the end of the body of its function a call leaves its arguments alone. -/
def Intact (root : Site) (p : Spot) : Prop :=
  ∀ (d : Decl) (e : Compiler), Reaches root d.site → Emits d.inner.part d.inner.state e →
    p.owner = d.entry → p.pc < e.code.size → p.floor = d.params.length

theorem Whole.free_intact {d : Decl} (whole : Whole code labels root last)
    (reached : Reaches root d.site) : Free (Intact root) d.params.length d.entry := by
  intro pc n k d' e reached' _ owner _
  obtain rfl := reached.func_unique reached' whole.emits whole.layered (Nat.succ.inj owner)
  rfl

theorem Whole.intact_after {d : Decl} {pc : Nat} {count : Option Nat}
    (whole : Whole code labels root last) (reached : Reaches root d.site)
    (body : Emits d.inner.part d.inner.state c₁) (le : c₁.code.size ≤ pc) :
    Intact root ⟨pc, f, n, d.entry, count⟩ := by
  intro d' e reached' body' owner lt
  obtain rfl := reached.func_unique reached' whole.emits whole.layered (Nat.succ.inj owner)
  obtain rfl := body.unique body'.compiles
  exact absurd lt (Nat.not_lt.mpr le)

/-- From its first statement on a program stays at spots where calls are intact. -/
theorem Whole.flows {ss : List Stmt} (whole : Whole code labels root last)
    (part : root.part = .stmts ss) (halts : code[last.code.size]? = some .halt) :
    Flows code labels (Intact root) (fun _ => False)
      (root.state.spot 0 root.state.locals.size 0) := by
  have outside : Free (Intact root) 0 0 := fun pc n k d e _ _ owner => nomatch owner
  have flow : root.part.Flow code labels (Intact root) root root.state last :=
    whole.emits.flow whole (.refl root)
  rw [part] at flow
  refine .fix (E := Entries root) lenient_leads ?_ ?_
  · rintro _ ⟨d, reached, rfl⟩
    obtain ⟨d', inner⟩ := reached.reached whole.emits whole.layered
    obtain ⟨c₁, body, -⟩ := Decl.emits_inner inner.emits
    exact whole.leads_start reached body (whole.free_intact reached)
      (fun _ _ _ _ le => whole.intact_after reached body le) fun _ => .inr
  · exact flow (z := 0) (fun _ => .inr) outside (Nat.zero_le _)
      (flows_step (outside _ _ _) (.halt halts))

end ScriptLang.Compiler
