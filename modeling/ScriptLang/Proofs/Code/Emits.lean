import ScriptLang.Code.Compiler
import ScriptLang.Proofs.Parse.Grammar
import ScriptLang.Proofs.Parse.Rules
import ScriptLang.Proofs.Sequence

/-!
What the compiler emits, as a relation.

`Emits p c c'`: compiling the part `p` of a program takes the state `c` to the state `c'`. There is
one constructor for each form of a statement or an expression, and the states between its parts are
written out as what has been added to the state before. Only trees whose operators the grammar
knows are covered (`Expr.nested`). Every compilation that succeeds is of this kind
(`emits_of_stmts`), so later proofs go by induction on the relation and never open the compiler.
What the relation says, the compiler does (`Emits.compiles`).
-/

namespace ScriptLang.Compiler

/-! ### Changes of the state -/

/-- The label with a given number. -/
def labelName (n : Nat) : String := "LBL" ++ toString n

/-- The state with an instruction more. -/
def add (c : Compiler) (i : Instr) : Compiler := { c with code := c.code.push i }

/-- The state after `n` labels have been made. -/
def takeLabels (c : Compiler) (n : Nat) : Compiler := { c with labels := c.labels + n }

/-- The state inside a new block. -/
def opened (c : Compiler) : Compiler := { c with depth := c.depth + 1 }

/-- The state after the innermost block. -/
def closed (c : Compiler) : Compiler :=
  let locals := dropDeeper (c.depth - 1) c.locals
  { c with
    depth := c.depth - 1
    locals
    functions := dropDeeper (c.depth - 1) c.functions
    code := c.code ++ Array.replicate (c.locals.size - locals.size) .pop }

/-- The state with a local variable more, which is the top of the stack. -/
def withLocal (c : Compiler) (name : String) : Compiler :=
  { c with locals := c.locals.push ⟨name, false, c.depth, 0⟩ }.add
    (.setSlot (slotNote c.locals.size name))

/-- The state with a global variable more, into which the top of the stack is stored. -/
def withGlobal (c : Compiler) (name : String) : Compiler :=
  { c with globals := c.globals.push ⟨name, false, c.depth, 0⟩ }.add
    (.storeGlobal (.index c.globals.size))

/-- The state with parameters as local variables. -/
def withParams (c : Compiler) : List Param → Compiler
  | [] => c
  | p :: ps => (c.withLocal p.name).withParams ps

/-- The state with a function more. -/
def declared (c : Compiler) (name : String) (arity : Nat) : Compiler :=
  { c with functions := c.functions.push ⟨name, true, c.depth, arity⟩ }

/-- The start of the block for a test that holds. The two other labels of the statement are for the
block after `else` and for what follows the statement. -/
def thenStart (c : Compiler) : Compiler :=
  ((c.takeLabels 3).add (.jumpIfZero (labelName (c.labels + 2)))).add
    (.label (labelName (c.labels + 1)))

/-- The start of the block after `else`, in a statement whose labels follow the label `n`. -/
def elseStart (c : Compiler) (n : Nat) : Compiler :=
  (c.add (.jump (labelName (n + 3)))).add (.label (labelName (n + 2)))

/-- The end of a statement whose last label is `n`. -/
def ending (c : Compiler) (n : Nat) : Compiler := c.add (.label (labelName n))

/-- The start of a loop, with its test. -/
def loopStart (c : Compiler) : Compiler :=
  (c.takeLabels 3).add (.label (labelName (c.labels + 1)))

/-- The start of the body of a loop whose labels follow the label `n`. -/
def bodyStart (c : Compiler) (n : Nat) : Compiler :=
  (c.add (.jumpIfZero (labelName (n + 3)))).add (.label (labelName (n + 2)))

/-- The way back to the test of a loop whose labels follow the label `n`. -/
def goBack (c : Compiler) (n : Nat) : Compiler := c.add (.jump (labelName (n + 1)))

/-- The start of a function. -/
def funcStart (c : Compiler) (name : String) (arity : Nat) : Compiler :=
  (((c.declared name arity).takeLabels 1).add (.jump (labelName (c.labels + 1)))).add (.label name)

/-- The end of a function that has returned no value. -/
def funcEnd (c : Compiler) : Compiler := (c.add (.push (.value .nothing))).add .leave

/-! ### The relation -/

/-- The instruction that loads a variable. -/
inductive Loads (c : Compiler) (x : String) : Instr → Prop where
  | global {s i} : c.varSymbol? x = some (s, i) → s.depth = 0 → Loads c x (.loadGlobal (.index i))
  | loc {s i} : c.varSymbol? x = some (s, i) → s.depth ≠ 0 → Loads c x (.loadLocal (.index i))

/-- How the top of the stack is stored in a variable. -/
inductive Stores (c : Compiler) (x : String) : Compiler → Prop where
  | newGlobal : c.varSymbol? x = none → c.depth = 0 → Stores c x (c.withGlobal x)
  | newLocal : c.varSymbol? x = none → c.depth ≠ 0 → Stores c x (c.withLocal x)
  | global {s i} : c.varSymbol? x = some (s, i) → s.depth = 0 →
      Stores c x (c.add (.storeGlobal (.index i)))
  | loc {s i} : c.varSymbol? x = some (s, i) → s.depth ≠ 0 →
      Stores c x (c.add (.storeLocal (.index i)))

/-- A part of a program. -/
inductive Part where
  | expr (e : Expr)
  | exprs (es : List Expr)
  | stmt (s : Stmt)
  | stmts (ss : List Stmt)
  | otherwise (b : Option Block)

/-- The bitwise operation that a word stands for. -/
def wordOp? : Kind → Option Bitwise
  | .kwAnd => some .and
  | .kwOr => some .or
  | _ => none

/-- Compiling a part takes one state to another. -/
inductive Emits : Part → Compiler → Compiler → Prop where
  | integer {n line x c} : Number.ofInt? n = some x →
      Emits (.expr (.integer n line)) c (c.add (.push (.value (.number (.float x)))))
  | real {x line c} : Emits (.expr (.real x line)) c (c.add (.push (.value (.number (.float x)))))
  | bool {b line c} : Emits (.expr (.bool b line)) c (c.add (.push (.value (.bool b))))
  | text {s line c} : Emits (.expr (.text s line)) c (c.add (.push (.value (.string s))))
  | binary {op l r line o c c₁ c₂} : opcode? op.kind = some o →
      Emits (.expr l) c c₁ → Emits (.expr r) c₁ c₂ →
      Emits (.expr (.binary op l r line)) c (c₂.add (.binary o))
  | minus {op e line c c₁} : op.kind = .minus → Emits (.expr e) c c₁ →
      Emits (.expr (.unary op e line)) c (c₁.add .neg)
  | tilde {op e line c c₁} : op.kind = .tilde → Emits (.expr e) c c₁ →
      Emits (.expr (.unary op e line)) c
        ((c₁.add (.push (.value (.bool true)))).add (.bitwise .xor))
  | plus {op e line c c₁} : op.kind = .plus → Emits (.expr e) c c₁ →
      Emits (.expr (.unary op e line)) c c₁
  | logical {op l r line o c c₁ c₂} : wordOp? op.kind = some o →
      Emits (.expr l) c c₁ → Emits (.expr r) c₁ c₂ →
      Emits (.expr (.logical op l r line)) c (c₂.add (.bitwise o))
  | group {e line c c₁} : Emits (.expr e) c c₁ → Emits (.expr (.group e line)) c c₁
  | name {x line i c} : Loads c x i → Emits (.expr (.name x line)) c (c.add i)
  | call {n es line f c c₁} : c.funcSymbol? n = some f → f.arity = es.length →
      Emits (.exprs es) c c₁ →
      Emits (.expr (.call n es line)) c
        ((c₁.add (.push (.value (.number (.int es.length))))).add (.enter n))
  | noExprs {c} : Emits (.exprs []) c c
  | moreExprs {e es c c₁ c₂} : Emits (.expr e) c c₁ → Emits (.exprs es) c₁ c₂ →
      Emits (.exprs (e :: es)) c c₂
  | print {e line c c₁} : Emits (.expr e) c c₁ →
      Emits (.stmt (.print e (.str "") line)) c (c₁.add .print)
  | println {e ending line c c₁} : ending ≠ .str "" → Emits (.expr e) c c₁ →
      Emits (.stmt (.print e ending line)) c (c₁.add .println)
  | branch {test b o line c c₁ c₂ c₃} : Emits (.expr test) c c₁ →
      Emits (.stmts b.stmts) c₁.thenStart.opened c₂ →
      Emits (.otherwise o) (c₂.closed.elseStart c₁.labels) c₃ →
      Emits (.stmt (.branch test b o line)) c (c₃.ending (c₁.labels + 3))
  | noElse {c} : Emits (.otherwise none) c c
  | orElse {b c c₁} : Emits (.stmts b.stmts) c.opened c₁ → Emits (.otherwise (some b)) c c₁.closed
  | loop {test b line c c₁ c₂} : Emits (.expr test) c.loopStart c₁ →
      Emits (.stmts b.stmts) (c₁.bodyStart c.labels).opened c₂ →
      Emits (.stmt (.loop test b line)) c ((c₂.closed.goBack c.labels).ending (c.labels + 3))
  | assign {target value line x c c₁ c₂} : Emits (.expr value) c c₁ → target.target? = some x →
      Stores c₁ x c₂ → Emits (.stmt (.assign target value line)) c c₂
  | assignLocal {target value line x c c₁} : Emits (.expr value) c c₁ → target.target? = some x →
      Emits (.stmt (.assignLocal target value line)) c (c₁.withLocal x)
  | count {var varLine start stop step b line c} :
      Emits (.stmt (.count var varLine start stop step b line)) c c
  | func {name ps b line c c₁} : c.funcSymbol? name = none → c.varSymbol? name = none →
      Emits (.stmts b.stmts) ((c.funcStart name ps.length).opened.withParams ps) c₁ →
      Emits (.stmt (.func name ps b line)) c (c₁.closed.funcEnd.ending (c.labels + 1))
  | callStmt {n es line c c₁} : Emits (.expr (.call n es line)) c c₁ →
      Emits (.stmt (.call n es line)) c (c₁.add .pop)
  | ret {e line c c₁} : Emits (.expr e) c c₁ → Emits (.stmt (.ret e line)) c (c₁.add .leave)
  | noStmts {c} : Emits (.stmts []) c c
  | moreStmts {s ss c c₁ c₂} : Emits (.stmt s) c c₁ → Emits (.stmts ss) c₁ c₂ →
      Emits (.stmts (s :: ss)) c c₂

/-! ### Every compilation is of this kind -/

theorem load_eq_ok {x : String} {line : Line} {c c' : Compiler} (h : load x line c = .ok () c') :
    ∃ i, Loads c x i ∧ c' = c.add i := by
  obtain ⟨_, _, got, h⟩ := bind_eq_ok.mp h
  cases got
  cases found : c.varSymbol? x with
  | none =>
    rw [found] at h
    exact absurd h throw_ne_ok
  | some p =>
    obtain ⟨s, i⟩ := p
    rw [found] at h
    by_cases depth : s.depth = 0
    · simp only [depth] at h
      cases h
      exact ⟨_, .global found depth, rfl⟩
    · simp only [beq_iff_eq, depth] at h
      cases h
      exact ⟨_, .loc found depth, rfl⟩

theorem store_eq_ok {x : String} {c c' : Compiler} (h : store x c = .ok () c') :
    Stores c x c' := by
  obtain ⟨_, _, got, h⟩ := bind_eq_ok.mp h
  cases got
  cases found : c.varSymbol? x with
  | none =>
    rw [found] at h
    by_cases depth : c.depth = 0
    · simp only [depth] at h
      cases h
      exact .newGlobal found depth
    · simp only [beq_iff_eq, depth] at h
      cases h
      exact .newLocal found depth
  | some p =>
    obtain ⟨s, i⟩ := p
    rw [found] at h
    by_cases depth : s.depth = 0
    · simp only [depth] at h
      cases h
      exact .global found depth
    · simp only [beq_iff_eq, depth] at h
      cases h
      exact .loc found depth

theorem targetName_eq_ok {target : Expr} {x : String} {c c' : Compiler}
    (h : targetName target c = .ok x c') : target.target? = some x ∧ c' = c := by
  unfold targetName at h
  cases found : target.target? with
  | none =>
    rw [found] at h
    exact absurd h throw_ne_ok
  | some y =>
    rw [found] at h
    obtain ⟨rfl, rfl⟩ := pure_eq_ok.mp h
    exact ⟨rfl, rfl⟩

theorem addParams_eq (ps : List Param) (c : Compiler) :
    addParams ps c = .ok () (c.withParams ps) := by
  induction ps generalizing c with
  | nil => rfl
  | cons p ps ih => exact ih (c.withLocal p.name)

theorem declare_eq_ok {name : String} {arity : Nat} {line : Line} {c c' : Compiler}
    (h : declare name arity line c = .ok () c') :
    c.funcSymbol? name = none ∧ c.varSymbol? name = none ∧ c' = c.declared name arity := by
  obtain ⟨_, _, got, h⟩ := bind_eq_ok.mp h
  cases got
  cases noFunc : c.funcSymbol? name with
  | some f =>
    simp only [noFunc] at h
    exact absurd h throw_ne_ok
  | none =>
    cases noVar : c.varSymbol? name with
    | some f =>
      simp only [noFunc, noVar] at h
      exact absurd h throw_ne_ok
    | none =>
      simp only [noFunc, noVar] at h
      cases h
      exact ⟨rfl, rfl, rfl⟩

/-- Every operator of the grammar stands for an operation. -/
theorem opcode?_of_rank {k : Kind} (h : k = .caret ∨ (3 ≤ k.rank ∧ k.rank ≤ 7)) :
    ∃ o, opcode? k = some o := by
  cases k <;> simp [Kind.rank] at h <;> simp [opcode?]

theorem wordOp?_of_rank {k : Kind} (h : 8 ≤ k.rank) :
    (k = .kwAnd ∧ wordOp? k = some .and) ∨ (k = .kwOr ∧ wordOp? k = some .or) := by
  cases k <;> simp [Kind.rank] at h <;> simp [wordOp?]

mutual
theorem emits_of_expr {e : Expr} {c c' : Compiler} (nested : e.all Expr.nested = true)
    (h : expr e c = .ok () c') : Emits (.expr e) c c' := by
  match e with
  | .integer n line =>
    rw [expr, pushInt] at h
    cases found : Number.ofInt? n with
    | some x =>
      rw [found] at h
      cases h
      exact .integer found
    | none =>
      rw [found] at h
      exact absurd h throw_ne_ok
  | .real x line =>
    rw [expr] at h
    cases h
    exact .real
  | .bool b line =>
    rw [expr] at h
    cases h
    exact .bool
  | .text s line =>
    rw [expr] at h
    cases h
    exact .text
  | .binary op l r line =>
    simp only [Expr.all, Bool.and_eq_true] at nested
    rw [expr] at h
    obtain ⟨_, c₁, left, h⟩ := bind_eq_ok.mp h
    obtain ⟨_, c₂, right, h⟩ := bind_eq_ok.mp h
    obtain ⟨o, known⟩ : ∃ o, opcode? op.kind = some o := by
      apply opcode?_of_rank
      have ranks := nested.1.1
      simp only [Expr.nested] at ranks
      split at ranks
      · rename_i caret
        exact .inl (by simpa using caret)
      · simp only [Bool.and_eq_true, decide_eq_true_eq] at ranks
        exact .inr ⟨ranks.1.1.1, ranks.1.1.2⟩
    rw [emitBinary, known] at h
    cases h
    exact .binary known (emits_of_expr nested.1.2 left) (emits_of_expr nested.2 right)
  | .unary op operand line =>
    simp only [Expr.all, Bool.and_eq_true] at nested
    rw [expr] at h
    obtain ⟨_, c₁, inner, h⟩ := bind_eq_ok.mp h
    have inner := emits_of_expr nested.2 inner
    have sign := nested.1
    simp only [Expr.nested, Bool.and_eq_true] at sign
    have kind := of_decide_eq_true sign.1
    simp only [Parse.signs, List.mem_cons, List.not_mem_nil, or_false] at kind
    rcases kind with kind | kind | kind <;> rw [kind] at h <;> cases h
    · exact .tilde kind inner
    · exact .minus kind inner
    · exact .plus kind inner
  | .logical op l r line =>
    simp only [Expr.all, Bool.and_eq_true] at nested
    rw [expr] at h
    obtain ⟨_, c₁, left, h⟩ := bind_eq_ok.mp h
    obtain ⟨_, c₂, right, h⟩ := bind_eq_ok.mp h
    have ranks := nested.1.1
    simp only [Expr.nested, Bool.and_eq_true, decide_eq_true_eq] at ranks
    have left := emits_of_expr nested.1.2 left
    have right := emits_of_expr nested.2 right
    rcases wordOp?_of_rank ranks.1.1 with ⟨kind, word⟩ | ⟨kind, word⟩
    · rw [kind] at h
      cases h
      exact .logical word left right
    · rw [kind] at h
      cases h
      exact .logical word left right
  | .group inner line =>
    simp only [Expr.all, Bool.and_eq_true] at nested
    rw [expr] at h
    exact .group (emits_of_expr nested.2 h)
  | .name x line =>
    rw [expr] at h
    obtain ⟨i, loads, rfl⟩ := load_eq_ok h
    exact .name loads
  | .call n es line =>
    simp only [Expr.all, Bool.and_eq_true] at nested
    rw [expr] at h
    obtain ⟨_, _, got, h⟩ := bind_eq_ok.mp h
    cases got
    cases found : c.funcSymbol? n with
    | none =>
      rw [found] at h
      exact absurd h throw_ne_ok
    | some f =>
      rw [found] at h
      by_cases arity : f.arity = es.length
      · simp only [bne_iff_ne, arity, ne_eq, not_true_eq_false, if_false] at h
        obtain ⟨_, c₁, args, h⟩ := bind_eq_ok.mp h
        cases h
        exact .call found arity (emits_of_exprs nested.2 args)
      · simp only [bne_iff_ne, arity, ne_eq, not_false_eq_true, if_true] at h
        exact absurd h throw_ne_ok

theorem emits_of_exprs {es : List Expr} {c c' : Compiler}
    (nested : Expr.allOf Expr.nested es = true) (h : exprs es c = .ok () c') :
    Emits (.exprs es) c c' := by
  match es with
  | [] =>
    rw [exprs] at h
    cases h
    exact .noExprs
  | e :: es =>
    rw [Expr.allOf, Bool.and_eq_true] at nested
    rw [exprs] at h
    obtain ⟨_, c₁, first, rest⟩ := bind_eq_ok.mp h
    exact .moreExprs (emits_of_expr nested.1 first) (emits_of_exprs nested.2 rest)
end

/-- Every expression of a statement has operators of the grammar. -/
abbrev knownOps : Stmt → Bool := Stmt.exprsAll Expr.nested

section
variable {α : Type} {f : Unit → Compile α} {g : String → Compile α} {c : Compiler}

theorem emit_bind {i : Instr} : (emit i >>= f) c = f () (c.add i) := rfl

theorem freshLabel_bind :
    (freshLabel >>= g) c = g (labelName (c.labels + 1)) (c.takeLabels 1) := rfl

theorem openBlock_bind : (openBlock >>= f) c = f () c.opened := rfl

theorem closeBlock_bind : (closeBlock >>= f) c = f () c.closed := rfl

theorem addParams_bind {ps : List Param} : (addParams ps >>= f) c = f () (c.withParams ps) :=
  bind_of_ok (addParams_eq ps c)
end

mutual
theorem emits_of_stmt {s : Stmt} {c c' : Compiler} (nested : s.all knownOps = true)
    (h : stmt s c = .ok () c') : Emits (.stmt s) c c' := by
  have exprs := Stmt.holds_of_all nested
  simp only [Stmt.exprsAll, List.all_eq_true] at exprs
  match s with
  | .print value ending line =>
    unfold stmt at h
    obtain ⟨_, c₁, first, h⟩ := bind_eq_ok.mp h
    have first := emits_of_expr (exprs value (by simp [Stmt.exprs])) first
    by_cases empty : ending = .str ""
    · subst empty
      cases h
      exact .print first
    · have println : emit .println c₁ = .ok () c' := by
        rw [← h]
        split
        · contradiction
        · rfl
      cases println
      exact .println empty first
  | .branch test thenBlock elseBlock line =>
    simp only [Stmt.all, Bool.and_eq_true] at nested
    unfold stmt at h
    obtain ⟨_, c₁, tested, h⟩ := bind_eq_ok.mp h
    simp only [freshLabel_bind, emit_bind, openBlock_bind] at h
    obtain ⟨_, c₂, body, h⟩ := bind_eq_ok.mp h
    simp only [closeBlock_bind, emit_bind] at h
    obtain ⟨_, c₃, other, h⟩ := bind_eq_ok.mp h
    cases h
    exact .branch (emits_of_expr (exprs test (by simp [Stmt.exprs])) tested)
      (emits_of_block nested.1.2 body) (emits_of_otherwise nested.2 other)
  | .loop test body line =>
    simp only [Stmt.all, Bool.and_eq_true] at nested
    unfold stmt at h
    simp only [freshLabel_bind, emit_bind] at h
    obtain ⟨_, c₁, tested, h⟩ := bind_eq_ok.mp h
    simp only [emit_bind, openBlock_bind] at h
    obtain ⟨_, c₂, body, h⟩ := bind_eq_ok.mp h
    cases h
    exact .loop (emits_of_expr (exprs test (by simp [Stmt.exprs])) tested)
      (emits_of_block nested.2 body)
  | .assign target value line =>
    unfold stmt at h
    obtain ⟨_, c₁, first, h⟩ := bind_eq_ok.mp h
    obtain ⟨x, c₂, named, stored⟩ := bind_eq_ok.mp h
    obtain ⟨target, same⟩ := targetName_eq_ok named
    subst same
    exact .assign (emits_of_expr (exprs value (by simp [Stmt.exprs])) first) target
      (store_eq_ok stored)
  | .assignLocal target value line =>
    unfold stmt at h
    obtain ⟨_, c₁, first, h⟩ := bind_eq_ok.mp h
    obtain ⟨x, c₂, named, stored⟩ := bind_eq_ok.mp h
    obtain ⟨target, same⟩ := targetName_eq_ok named
    subst same
    cases stored
    exact .assignLocal (emits_of_expr (exprs value (by simp [Stmt.exprs])) first) target
  | .count var varLine start stop step body line =>
    unfold stmt at h
    cases h
    exact .count
  | .func name params body line =>
    simp only [Stmt.all, Bool.and_eq_true] at nested
    unfold stmt at h
    obtain ⟨_, c₁, new, h⟩ := bind_eq_ok.mp h
    obtain ⟨noFunc, noVar, rfl⟩ := declare_eq_ok new
    simp only [freshLabel_bind, emit_bind, openBlock_bind, addParams_bind] at h
    obtain ⟨_, c₂, body, h⟩ := bind_eq_ok.mp h
    cases h
    exact .func noFunc noVar (emits_of_block nested.2 body)
  | .call n args line =>
    unfold stmt at h
    obtain ⟨_, c₁, called, h⟩ := bind_eq_ok.mp h
    cases h
    exact .callStmt (emits_of_expr (exprs (.call n args line) (by simp [Stmt.exprs])) called)
  | .ret value line =>
    unfold stmt at h
    obtain ⟨_, c₁, first, h⟩ := bind_eq_ok.mp h
    cases h
    exact .ret (emits_of_expr (exprs value (by simp [Stmt.exprs])) first)

theorem emits_of_block {b : Block} {c c' : Compiler} (nested : b.all knownOps = true)
    (h : block b c = .ok () c') : Emits (.stmts b.stmts) c c' := by
  match b with
  | .mk ss line =>
    unfold block at h
    exact emits_of_stmts nested h

theorem emits_of_otherwise {o : Option Block} {c c' : Compiler}
    (nested : Block.allElse knownOps o = true) (h : elsePart o c = .ok () c') :
    Emits (.otherwise o) c c' := by
  match o with
  | none =>
    unfold elsePart at h
    cases h
    exact .noElse
  | some b =>
    unfold elsePart at h
    simp only [openBlock_bind] at h
    obtain ⟨_, c₁, body, h⟩ := bind_eq_ok.mp h
    cases h
    exact .orElse (emits_of_block nested body)

theorem emits_of_stmts {ss : List Stmt} {c c' : Compiler}
    (nested : Stmt.allOf knownOps ss = true) (h : stmts ss c = .ok () c') :
    Emits (.stmts ss) c c' := by
  match ss with
  | [] =>
    unfold stmts at h
    cases h
    exact .noStmts
  | s :: ss =>
    rw [Stmt.allOf, Bool.and_eq_true] at nested
    unfold stmts at h
    obtain ⟨_, c₁, first, rest⟩ := bind_eq_ok.mp h
    exact .moreStmts (emits_of_stmt nested.1 first) (emits_of_stmts nested.2 rest)
end

/-- The state before the first statement of a program. -/
def first : Compiler := empty.add (.label "START")

theorem emits_of_generate {b : Block} {c : Compiler} (nested : b.all knownOps = true)
    (h : generate (.block b) empty = .ok () c) :
    ∃ c', Emits (.stmts b.stmts) first c' ∧ c = c'.add .halt := by
  unfold generate at h
  simp only [emit_bind] at h
  obtain ⟨_, c', body, h⟩ := bind_eq_ok.mp h
  cases h
  exact ⟨c', emits_of_block nested body, rfl⟩

/-! ### The relation is the compiler -/

/-- Compiles a part. -/
def Part.compile : Part → Compile Unit
  | .expr e => Compiler.expr e
  | .exprs es => Compiler.exprs es
  | .stmt s => Compiler.stmt s
  | .stmts ss => Compiler.stmts ss
  | .otherwise o => elsePart o

variable {c c₁ c₂ c' : Compiler}

theorem Loads.compiles {x : String} {i : Instr} (h : Loads c x i) (line : Line) :
    load x line c = .ok () (c.add i) := by
  cases h with
  | global found top =>
    rw [load, get_bind, found]
    simp only [top]
    rfl
  | loc found deep =>
    rw [load, get_bind, found]
    simp only [beq_iff_eq, deep]
    rfl

theorem Stores.compiles {x : String} (h : Stores c x c') : store x c = .ok () c' := by
  cases h with
  | newGlobal absent top =>
    rw [store, get_bind, absent]
    simp only [top]
    rfl
  | newLocal absent deep =>
    rw [store, get_bind, absent]
    simp only [beq_iff_eq, deep]
    rfl
  | global found top =>
    rw [store, get_bind, found]
    simp only [top]
    rfl
  | loc found deep =>
    rw [store, get_bind, found]
    simp only [beq_iff_eq, deep]
    rfl

theorem targetName_of_some {target : Expr} {x : String} (h : target.target? = some x)
    (c : Compiler) : targetName target c = .ok x c := by
  rw [targetName, h]
  rfl

theorem declare_of_none {name : String} {arity : Nat} {line : Line}
    (noFunc : c.funcSymbol? name = none) (noVar : c.varSymbol? name = none) :
    declare name arity line c = .ok () (c.declared name arity) := by
  rw [declare, get_bind, noFunc, noVar]
  rfl

theorem block_eq (b : Block) : block b = stmts b.stmts := by
  cases b
  rw [block]
  rfl

/-- What the relation says the compiler does. -/
theorem Emits.compiles {p : Part} (h : Emits p c c') : p.compile c = .ok () c' := by
  induction h with
  | integer found =>
    rw [Part.compile, expr, pushInt, found]
    rfl
  | real | bool | text =>
    rw [Part.compile, expr]
    rfl
  | binary known _ _ ih ih' =>
    dsimp only [Part.compile] at ih ih' ⊢
    rw [expr, bind_of_ok ih, bind_of_ok ih', emitBinary, known]
    rfl
  | minus kind _ ih | tilde kind _ ih | plus kind _ ih =>
    dsimp only [Part.compile] at ih ⊢
    rw [expr, bind_of_ok ih, kind]
    rfl
  | @logical op _ _ _ _ _ _ _ word _ _ ih ih' =>
    dsimp only [Part.compile] at ih ih' ⊢
    rw [expr, bind_of_ok ih, bind_of_ok ih']
    unfold wordOp? at word
    split at word <;> rename_i kind <;> cases word <;> rw [kind] <;> rfl
  | group _ ih =>
    dsimp only [Part.compile] at ih ⊢
    rw [expr]
    exact ih
  | name loads =>
    rw [Part.compile, expr]
    exact loads.compiles _
  | call found arity _ ih =>
    dsimp only [Part.compile] at ih ⊢
    rw [expr, get_bind, found]
    simp only [arity, bne_self_eq_false, Bool.false_eq_true, if_false]
    rw [bind_of_ok ih]
    rfl
  | noExprs =>
    rw [Part.compile, exprs]
    rfl
  | moreExprs _ _ ih ih' =>
    dsimp only [Part.compile] at ih ih' ⊢
    rw [exprs, bind_of_ok ih]
    exact ih'
  | print _ ih =>
    dsimp only [Part.compile] at ih ⊢
    rw [stmt, bind_of_ok ih]
    rfl
  | println other _ ih =>
    dsimp only [Part.compile] at ih ⊢
    rw [stmt, bind_of_ok ih]
    · rfl
    · exact other
  | branch _ _ _ ih ih₁ ih₂ =>
    dsimp only [Part.compile] at ih ih₁ ih₂ ⊢
    rw [stmt, bind_of_ok ih]
    simp only [freshLabel_bind, emit_bind, openBlock_bind, block_eq]
    refine (bind_of_ok ih₁).trans ?_
    simp only [closeBlock_bind, emit_bind]
    exact bind_of_ok ih₂
  | noElse =>
    rw [Part.compile, elsePart]
    rfl
  | orElse _ ih =>
    dsimp only [Part.compile] at ih ⊢
    rw [elsePart]
    simp only [openBlock_bind, block_eq]
    exact bind_of_ok ih
  | loop _ _ ih ih₁ =>
    dsimp only [Part.compile] at ih ih₁ ⊢
    rw [stmt]
    simp only [freshLabel_bind, emit_bind]
    refine (bind_of_ok ih).trans ?_
    simp only [emit_bind, openBlock_bind, block_eq]
    exact bind_of_ok ih₁
  | assign _ named stores ih =>
    dsimp only [Part.compile] at ih ⊢
    rw [stmt, bind_of_ok ih, bind_of_ok (targetName_of_some named _)]
    exact stores.compiles
  | assignLocal _ named ih =>
    dsimp only [Part.compile] at ih ⊢
    rw [stmt, bind_of_ok ih, bind_of_ok (targetName_of_some named _)]
    rfl
  | count =>
    rw [Part.compile, stmt]
    rfl
  | func noFunc noVar _ ih =>
    dsimp only [Part.compile] at ih ⊢
    rw [stmt, bind_of_ok (declare_of_none noFunc noVar)]
    simp only [freshLabel_bind, emit_bind, openBlock_bind, addParams_bind, block_eq]
    exact bind_of_ok ih
  | callStmt _ ih | ret _ ih =>
    dsimp only [Part.compile] at ih ⊢
    rw [stmt, bind_of_ok ih]
    rfl
  | noStmts =>
    rw [Part.compile, stmts]
    rfl
  | moreStmts _ _ ih ih' =>
    dsimp only [Part.compile] at ih ih' ⊢
    rw [stmts, bind_of_ok ih]
    exact ih'

/-- The compiler ends in one state only. -/
theorem Emits.unique {p : Part} (h : Emits p c c₁) (again : p.compile c = .ok () c₂) :
    c₁ = c₂ := by
  rw [h.compiles] at again
  cases again
  rfl

end ScriptLang.Compiler
