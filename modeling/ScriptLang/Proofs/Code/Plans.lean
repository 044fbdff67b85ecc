import ScriptLang.Proofs.Code.Emits

/-!
The moments of a compilation.

What the compiler does is a plan: it looks at its state, makes labels, writes to the state, one
write at a time, and may fail. To follow the plan of a part of a program is to compile that part
(`exec_part`), so the plans say in which states a compilation is on the way, and which labels it has
made until then. Leaving a block is one write.
-/

namespace ScriptLang.Compiler

/-- A write to the state. -/
inductive Write where
  | code (i : Instr)
  | openBlock
  | closeBlock
  | addLocal (name : String)
  | addGlobal (name : String)
  | addFunction (name : String) (arity : Nat)

/-- The state after a write. -/
def Write.apply : Write → Compiler → Compiler
  | .code i, c => c.add i
  | .openBlock, c => c.opened
  | .closeBlock, c => c.closed
  | .addLocal name, c => { c with locals := c.locals.push ⟨name, false, c.depth, 0⟩ }
  | .addGlobal name, c => { c with globals := c.globals.push ⟨name, false, c.depth, 0⟩ }
  | .addFunction name arity, c => c.declared name arity

/-- What the compiler does, write by write. -/
inductive Plan (α : Type) where
  | done (a : α)
  | fail (f : Failure)
  | look (next : Compiler → Plan α)
  | label (next : String → Plan α)
  | write (w : Write) (next : Plan α)

/-- A time in a compilation: the labels made until then, and the state. -/
structure Moment where
  made : List String
  state : Compiler

namespace Plan

variable {α β : Type}

protected def bind : Plan α → (α → Plan β) → Plan β
  | .done a, f => f a
  | .fail e, _ => .fail e
  | .look next, f => .look fun c => (next c).bind f
  | .label next, f => .label fun name => (next name).bind f
  | .write w next, f => .write w (next.bind f)

instance : Monad Plan where
  pure := .done
  bind := Plan.bind

/-- Follows a plan. -/
def exec : Plan α → Compile α
  | .done a => pure a
  | .fail f => throw f
  | .look next => fun c => (next c).exec c
  | .label next => fun c => (next (labelName (c.labels + 1))).exec (c.takeLabels 1)
  | .write w next => fun c => next.exec (w.apply c)

/-- The moments while a plan is followed: the first one, and one after each label and each write. -/
def moments : Plan α → Moment → List Moment
  | .done _, m | .fail _, m => [m]
  | .look next, m => (next m.state).moments m
  | .label next, m =>
    let name := labelName (m.state.labels + 1)
    m :: (next name).moments ⟨m.made ++ [name], m.state.takeLabels 1⟩
  | .write w next, m => m :: next.moments ⟨m.made, w.apply m.state⟩

/-! ### The plans of the compiler

Each has the name of the step that it is the plan of. -/

def emit (i : Instr) : Plan Unit := .write (.code i) (.done ())

def refuse (line : Line) (text : String) : Plan α := .fail (.report (.atLine line text))

def freshLabel : Plan String := .label .done

def leaveBlock : Plan Unit := .write .closeBlock (.done ())

/-- A block around a plan. -/
def inBlock (body : Plan Unit) : Plan Unit :=
  .write .openBlock do
    body
    leaveBlock

def addLocal (name : String) : Plan Unit :=
  .look fun c => .write (.addLocal name) (emit (.setSlot (slotNote c.locals.size name)))

def addGlobal (name : String) : Plan Unit :=
  .look fun c => .write (.addGlobal name) (emit (.storeGlobal (.index c.globals.size)))

def pushInt (i : Int) : Plan Unit :=
  match Number.ofInt? i with
  | some x => emit (.push (.value (.number (.float x))))
  | none => .fail (.fault (.overflow .conversion))

def targetName (target : Expr) : Plan String :=
  match target.target? with
  | some name => .done name
  | none => .fail (.fault (.attribute ((target.outline.form?.map Form.name).getD "") "name"))

def load (name : String) (line : Line) : Plan Unit :=
  .look fun c =>
    match c.varSymbol? name with
    | none => refuse line ("Variable " ++ name ++ " is not defined.")
    | some (s, i) =>
      if s.depth == 0 then emit (.loadGlobal (.index i)) else emit (.loadLocal (.index i))

def store (name : String) : Plan Unit :=
  .look fun c =>
    match c.varSymbol? name with
    | none => if c.depth == 0 then addGlobal name else addLocal name
    | some (s, i) =>
      if s.depth == 0 then emit (.storeGlobal (.index i)) else emit (.storeLocal (.index i))

def emitBinary (op : Token) : Plan Unit :=
  match Compiler.opcode? op.kind with
  | some o => emit (.binary o)
  | none => .done ()

mutual
def expr : Expr → Plan Unit
  | .integer value _ => pushInt value
  | .real value _ => emit (.push (.value (.number (.float value))))
  | .bool value _ => emit (.push (.value (.bool value)))
  | .text value _ => emit (.push (.value (.string value)))
  | .binary op left right _ => do
    expr left
    expr right
    emitBinary op
  | .unary op operand _ => do
    expr operand
    match op.kind with
    | .minus => emit .neg
    | .tilde => do
      emit (.push (.value (.bool true)))
      emit (.bitwise .xor)
    | _ => .done ()
  | .logical op left right _ => do
    expr left
    expr right
    match op.kind with
    | .kwAnd => emit (.bitwise .and)
    | .kwOr => emit (.bitwise .or)
    | _ => .done ()
  | .group inner _ => expr inner
  | .name n line => load n line
  | .call n args line =>
    .look fun c =>
      match c.funcSymbol? n with
      | none => refuse line ("Not found declaration for function " ++ n)
      | some f =>
        if f.arity != args.length then
          refuse line ("Function expected " ++ toString f.arity ++ " params but " ++
            toString args.length ++ " args were passed")
        else do
          exprs args
          emit (.push (.value (.number (.int args.length))))
          emit (.enter n)

def exprs : List Expr → Plan Unit
  | [] => .done ()
  | e :: es => do
    expr e
    exprs es
end

def addParams : List Param → Plan Unit
  | [] => .done ()
  | p :: ps => do
    addLocal p.name
    addParams ps

def declare (name : String) (arity : Nat) (line : Line) : Plan Unit :=
  .look fun c =>
    if (c.funcSymbol? name).isSome then
      refuse line ("A function with the name " ++ name ++ " was already declared.")
    else if (c.varSymbol? name).isSome then
      refuse line ("A variable with the name " ++ name ++ " was already defined in this scope.")
    else .write (.addFunction name arity) (.done ())

mutual
def stmt : Stmt → Plan Unit
  | .print value ending _ => do
    expr value
    match ending with
    | .str "" => emit .print
    | _ => emit .println
  | .branch test thenBlock elseBlock _ => do
    expr test
    let thenLabel ← freshLabel
    let elseLabel ← freshLabel
    let exitLabel ← freshLabel
    emit (.jumpIfZero elseLabel)
    emit (.label thenLabel)
    inBlock (block thenBlock)
    emit (.jump exitLabel)
    emit (.label elseLabel)
    elsePart elseBlock
    emit (.label exitLabel)
  | .loop test body _ => do
    let testLabel ← freshLabel
    let bodyLabel ← freshLabel
    let exitLabel ← freshLabel
    emit (.label testLabel)
    expr test
    emit (.jumpIfZero exitLabel)
    emit (.label bodyLabel)
    inBlock (block body)
    emit (.jump testLabel)
    emit (.label exitLabel)
  | .assign target value _ => do
    expr value
    store (← targetName target)
  | .assignLocal target value _ => do
    expr value
    addLocal (← targetName target)
  | .count .. => .done ()
  | .func name params body line => do
    declare name params.length line
    let endLabel ← freshLabel
    emit (.jump endLabel)
    emit (.label name)
    inBlock do
      addParams params
      block body
    emit (.push (.value .nothing))
    emit .leave
    emit (.label endLabel)
  | .call n args line => do
    expr (.call n args line)
    emit .pop
  | .ret value _ => do
    expr value
    emit .leave

def block : Block → Plan Unit
  | .mk ss _ => stmts ss

def elsePart : Option Block → Plan Unit
  | none => .done ()
  | some b => inBlock (block b)

def stmts : List Stmt → Plan Unit
  | [] => .done ()
  | s :: ss => do
    stmt s
    stmts ss
end

/-- The plan of a part of a program. -/
def part : Part → Plan Unit
  | .expr e => expr e
  | .exprs es => exprs es
  | .stmt s => stmt s
  | .stmts ss => stmts ss
  | .otherwise o => elsePart o

def program : Program → Plan Unit
  | .expr e => expr e
  | .stmt s => stmt s
  | .block b => block b
  | .inert => .done ()

def generate (p : Program) : Plan Unit := do
  emit (.label "START")
  program p
  emit .halt

/-! ### Following the plans -/

theorem exec_bind (x : Plan α) (f : α → Plan β) :
    (x >>= f).exec = x.exec >>= fun a => (f a).exec := by
  change (x.bind f).exec = _
  induction x with
  | done a => rfl
  | fail e => rfl
  | look next ih =>
    funext c
    exact congrFun (ih c) c
  | label next ih =>
    funext c
    exact congrFun (ih _) _
  | write w next ih =>
    funext c
    exact congrFun ih _

theorem exec_look (next : Compiler → Plan α) (c : Compiler) :
    (look next).exec c = (next c).exec c := rfl

theorem exec_emit (i : Instr) : (emit i).exec = Compiler.emit i := rfl

theorem exec_freshLabel : freshLabel.exec = Compiler.freshLabel := rfl

theorem exec_inBlock (body : Plan Unit) :
    (inBlock body).exec = (do Compiler.openBlock; body.exec; Compiler.closeBlock) := by
  funext c
  exact congrFun (exec_bind body fun _ => leaveBlock) c.opened

theorem exec_addLocal (name : String) : (addLocal name).exec = Compiler.addLocal name := rfl

theorem exec_pushInt (i : Int) : (pushInt i).exec = Compiler.pushInt i := by
  unfold pushInt Compiler.pushInt
  cases Number.ofInt? i <;> rfl

theorem exec_targetName (target : Expr) :
    (targetName target).exec = Compiler.targetName target := by
  unfold targetName Compiler.targetName
  cases target.target? <;> rfl

theorem exec_load (name : String) (line : Line) :
    (load name line).exec = Compiler.load name line := by
  funext c
  rw [Compiler.load, get_bind, load, exec_look]
  cases c.varSymbol? name with
  | none => rfl
  | some p =>
    dsimp only
    split <;> rfl

theorem exec_store (name : String) : (store name).exec = Compiler.store name := by
  funext c
  rw [Compiler.store, get_bind, store, exec_look]
  cases c.varSymbol? name with
  | none =>
    dsimp only
    split <;> rfl
  | some p =>
    dsimp only
    split <;> rfl

theorem exec_emitBinary (op : Token) : (emitBinary op).exec = Compiler.emitBinary op := by
  unfold emitBinary Compiler.emitBinary
  cases Compiler.opcode? op.kind <;> rfl

theorem exec_declare (name : String) (arity : Nat) (line : Line) :
    (declare name arity line).exec = Compiler.declare name arity line := by
  funext c
  rw [Compiler.declare, get_bind, declare, exec_look]
  split
  · rfl
  · split <;> rfl

theorem exec_addParams (ps : List Param) : (addParams ps).exec = Compiler.addParams ps := by
  induction ps with
  | nil => rfl
  | cons p ps ih =>
    rw [addParams, exec_bind, ih]
    rfl

mutual
theorem exec_expr (e : Expr) : (expr e).exec = Compiler.expr e := by
  match e with
  | .integer value line =>
    rw [expr, Compiler.expr]
    exact exec_pushInt value
  | .real value line | .bool value line | .text value line =>
    rw [expr, Compiler.expr]
    rfl
  | .binary op left right line =>
    rw [expr, Compiler.expr]
    simp only [exec_bind, exec_expr left, exec_expr right, exec_emitBinary]
  | .unary op operand line =>
    rw [expr, Compiler.expr, exec_bind, exec_expr operand]
    refine bind_congr fun _ => ?_
    cases op.kind <;> rfl
  | .logical op left right line =>
    rw [expr, Compiler.expr]
    simp only [exec_bind, exec_expr left, exec_expr right]
    refine bind_congr fun _ => bind_congr fun _ => ?_
    cases op.kind <;> rfl
  | .group inner line =>
    rw [expr, Compiler.expr]
    exact exec_expr inner
  | .name n line =>
    rw [expr, Compiler.expr]
    exact exec_load n line
  | .call n args line =>
    funext c
    rw [expr, Compiler.expr, get_bind, exec_look]
    cases c.funcSymbol? n with
    | none => rfl
    | some f =>
      dsimp only
      split
      · rfl
      · simp only [exec_bind, exec_exprs args, exec_emit]

theorem exec_exprs (es : List Expr) : (exprs es).exec = Compiler.exprs es := by
  match es with
  | [] =>
    rw [exprs, Compiler.exprs]
    rfl
  | e :: es =>
    rw [exprs, Compiler.exprs, exec_bind, exec_expr e, exec_exprs es]
end

mutual
theorem exec_stmt (s : Stmt) : (stmt s).exec = Compiler.stmt s := by
  match s with
  | .print value ending line =>
    by_cases empty : ending = .str ""
    · subst empty
      rw [stmt, Compiler.stmt, exec_bind, exec_expr]
      rfl
    · rw [stmt, Compiler.stmt, exec_bind, exec_expr]
      · rfl
      · exact empty
      · exact empty
  | .branch test thenBlock elseBlock line =>
    rw [stmt, Compiler.stmt]
    simp only [exec_bind, exec_expr, exec_freshLabel, exec_emit, exec_inBlock, bind_assoc,
      exec_block thenBlock, exec_elsePart elseBlock]
  | .loop test body line =>
    rw [stmt, Compiler.stmt]
    simp only [exec_bind, exec_expr, exec_freshLabel, exec_emit, exec_inBlock, bind_assoc,
      exec_block body]
  | .assign target value line =>
    rw [stmt, Compiler.stmt]
    simp only [exec_bind, exec_expr, exec_targetName, exec_store]
  | .assignLocal target value line =>
    rw [stmt, Compiler.stmt]
    simp only [exec_bind, exec_expr, exec_targetName, exec_addLocal]
  | .count .. =>
    rw [stmt, Compiler.stmt]
    rfl
  | .func name params body line =>
    rw [stmt, Compiler.stmt]
    simp only [exec_bind, exec_declare, exec_freshLabel, exec_emit, exec_inBlock, bind_assoc,
      exec_addParams, exec_block body]
  | .call n args line | .ret value line =>
    rw [stmt, Compiler.stmt]
    simp only [exec_bind, exec_expr, exec_emit]

theorem exec_block (b : Block) : (block b).exec = Compiler.block b := by
  match b with
  | .mk ss line =>
    rw [block, Compiler.block]
    exact exec_stmts ss

theorem exec_elsePart (o : Option Block) : (elsePart o).exec = Compiler.elsePart o := by
  match o with
  | none =>
    rw [elsePart, Compiler.elsePart]
    rfl
  | some b =>
    rw [elsePart, Compiler.elsePart, exec_inBlock, exec_block b]

theorem exec_stmts (ss : List Stmt) : (stmts ss).exec = Compiler.stmts ss := by
  match ss with
  | [] =>
    rw [stmts, Compiler.stmts]
    rfl
  | s :: ss =>
    rw [stmts, Compiler.stmts, exec_bind, exec_stmt s, exec_stmts ss]
end

/-- To compile a part is to follow its plan. -/
theorem exec_part (p : Part) : (part p).exec = p.compile := by
  cases p with
  | expr e => exact exec_expr e
  | exprs es => exact exec_exprs es
  | stmt s => exact exec_stmt s
  | stmts ss => exact exec_stmts ss
  | otherwise o => exact exec_elsePart o

theorem exec_generate (p : Program) : (generate p).exec = Compiler.generate p := by
  have inner : (program p).exec = Compiler.program p := by
    cases p with
    | expr e => exact exec_expr e
    | stmt s => exact exec_stmt s
    | block b => exact exec_block b
    | inert => rfl
  rw [generate, Compiler.generate]
  simp only [exec_bind, exec_emit, inner]

/-! ### The moments of plans -/

/-- A moment of two plans in sequence is one of the first or, if that succeeds, of the second. -/
theorem mem_moments_bind {x : Plan α} {f : α → Plan β} {m₀ m : Moment}
    (mem : m ∈ (x >>= f).moments m₀) :
    m ∈ x.moments m₀ ∨
      ∃ a m₁, x.exec m₀.state = .ok a m₁.state ∧ m ∈ (f a).moments m₁ := by
  change m ∈ (x.bind f).moments m₀ at mem
  induction x generalizing m₀ with
  | done a => exact .inr ⟨a, m₀, rfl, mem⟩
  | fail e => exact .inl mem
  | look next ih => exact ih m₀.state mem
  | label next ih =>
    rcases List.mem_cons.mp mem with rfl | mem
    · exact .inl List.mem_cons_self
    · exact (ih _ mem).imp_left (List.mem_cons_of_mem _)
  | write w next ih =>
    rcases List.mem_cons.mp mem with rfl | mem
    · exact .inl List.mem_cons_self
    · exact (ih mem).imp_left (List.mem_cons_of_mem _)

/-- The state in which a plan ends is that of one of its moments. -/
theorem exists_moment_of_exec {x : Plan α} (m₀ : Moment) {a : α} {c : Compiler}
    (ended : x.exec m₀.state = .ok a c) : ∃ m ∈ x.moments m₀, m.state = c := by
  induction x generalizing m₀ with
  | done b =>
    cases ended
    exact ⟨m₀, List.mem_singleton_self m₀, rfl⟩
  | fail e => exact absurd ended throw_ne_ok
  | look next ih => exact ih m₀.state m₀ ended
  | label next ih =>
    obtain ⟨m, mem, state⟩ := ih _ ⟨m₀.made ++ [_], m₀.state.takeLabels 1⟩ ended
    exact ⟨m, List.mem_cons_of_mem _ mem, state⟩
  | write w next ih =>
    obtain ⟨m, mem, state⟩ := ih ⟨m₀.made, w.apply m₀.state⟩ ended
    exact ⟨m, List.mem_cons_of_mem _ mem, state⟩

end Plan

end ScriptLang.Compiler
