import ScriptLang.Eval.Basic

/-!
The tree evaluator.

An expression yields a value or, if its operator is unknown, none. A block has a scope of its own
inside the scope of its statement; the blocks of a loop share one scope over all rounds. A call
evaluates its arguments in the scope of the caller and the body in a new scope inside that of the
declaration. Fuel bounds the depth of the evaluation, rounds of a loop included.
-/

namespace ScriptLang.Eval

/-- Runs the body of a function and takes the value it returns. -/
def returning (body : Eval Unit) : Eval (Option Value) := fun s =>
  match body s with
  | .ok _ s => .ok (some .nothing) s
  | .error (.ret v) s => .ok v s
  | .error e s => .error e s

mutual
/-- Evaluates an expression in scope `σ`. -/
def expr : Nat → Nat → Expr → Eval (Option Value)
  | 0, _, _ => throw .outOfFuel
  | fuel + 1, σ, e =>
    match e with
    | .integer value _ =>
      match Number.ofInt? value with
      | some x => pure (some (.number (.float x)))
      | none => fault (.overflow .conversion)
    | .real value _ => pure (some (.number (.float value)))
    | .text value _ => pure (some (.string value))
    | .bool value _ => pure (some (.bool value))
    | .group inner _ => expr fuel σ inner
    | .name n line => some <$> lookup σ n line
    | .binary op left right line => do
      let a ← demand (← expr fuel σ left)
      let b ← demand (← expr fuel σ right)
      binary op a b line
    | .unary op operand _ => do
      let v ← demand (← expr fuel σ operand)
      unary op v
    | .logical op left right _ => do
      let a ← demand (← expr fuel σ left)
      if decides op a then pure (some a) else expr fuel σ right
    | .call n args line => call fuel σ n args line

/-- Evaluates arguments from left to right. -/
def exprs : Nat → Nat → List Expr → Eval (List (Option Value))
  | 0, _, _ => throw .outOfFuel
  | _ + 1, _, [] => pure []
  | fuel + 1, σ, e :: es => do
    let v ← expr fuel σ e
    let vs ← exprs fuel σ es
    pure (v :: vs)

/-- Calls a function. -/
def call : Nat → Nat → String → List Expr → Line → Eval (Option Value)
  | 0, _, _, _, _ => throw .outOfFuel
  | fuel + 1, σ, n, args, line => do
    match (← get).forest.getFunc σ n with
    | none => report line ("Function " ++ Text.quoted n ++ " not declared.")
    | some f =>
      if args.length != f.params.length then
        report line
          ("Function " ++ Text.quoted f.name ++ " expected " ++ toString f.params.length ++
            " params but " ++ toString args.length ++ " args were passed.")
      else
        let values ← exprs fuel σ args
        let inner ← childScope f.scope
        bindParams inner f.params values
        returning (block fuel inner f.body)

/-- Executes a statement in scope `σ`. -/
def stmt : Nat → Nat → Stmt → Eval Unit
  | 0, _, _ => throw .outOfFuel
  | fuel + 1, σ, s =>
    match s with
    | .print value ending _ => do
      let v ← demand (← expr fuel σ value)
      print v.datum ending
    | .assign target value _ => do
      let v ← demand (← expr fuel σ value)
      setVar σ (← targetName target) (some v)
    | .assignLocal target value _ => do
      let v ← demand (← expr fuel σ value)
      setLocal σ (← targetName target) (some v)
    | .branch test thenBlock elseBlock line => do
      let v ← demand (← expr fuel σ test)
      match v.tag with
      | .bool =>
        let inner ← childScope σ
        if v.datum.truthy then block fuel inner thenBlock
        else
          match elseBlock with
          | some b => block fuel inner b
          | none => pure ()
      | _ => report line "Condition test is not a boolean expression."
    | .loop test body line => do
      let inner ← childScope σ
      rounds fuel σ inner test body line
    | .count var _ start stop step body _ => do
      let i ← demand (← expr fuel σ start)
      let last ← demand (← expr fuel σ stop)
      let inner ← childScope σ
      let upward ← lift (i.datum.ordered .lt last.datum)
      let delta ←
        match step with
        | none => pure (Datum.int (if upward then 1 else -1))
        | some e => Value.datum <$> (do demand (← expr fuel σ e))
      counted fuel σ inner var (if upward then .le else .ge) last.datum delta body i.datum
    | .func name params body _ =>
      modify fun st =>
        { st with forest := st.forest.setFunc σ name (some ⟨name, params, body, σ⟩) }
    | .call n args line => do
      let _ ← call fuel σ n args line
      pure ()
    | .ret value _ => do
      let v ← expr fuel σ value
      throw (.ret v)

/-- Executes a block in scope `σ`. -/
def block : Nat → Nat → Block → Eval Unit
  | 0, _, _ => throw .outOfFuel
  | fuel + 1, σ, b => stmts fuel σ b.stmts

/-- Executes statements in order. -/
def stmts : Nat → Nat → List Stmt → Eval Unit
  | 0, _, _ => throw .outOfFuel
  | _ + 1, _, [] => pure ()
  | fuel + 1, σ, s :: ss => do
    stmt fuel σ s
    stmts fuel σ ss

/-- The rounds of a loop: the test in scope `σ`, the body in scope `inner`. -/
def rounds : Nat → Nat → Nat → Expr → Block → Line → Eval Unit
  | 0, _, _, _, _, _ => throw .outOfFuel
  | fuel + 1, σ, inner, test, body, line => do
    let v ← demand (← expr fuel σ test)
    match v.tag with
    | .bool =>
      if v.datum.truthy then
        block fuel inner body
        rounds fuel σ inner test body line
      else pure ()
    | _ => report line "While test is not a boolean expression."

/-- The rounds of a counted loop from the counter `i` on, while it is on the right side of
`last`. The counter is set before each round, whatever the body did to it. -/
def counted : Nat → Nat → Nat → String → Comparison → Datum → Datum → Block → Datum → Eval Unit
  | 0, _, _, _, _, _, _, _, _ => throw .outOfFuel
  | fuel + 1, σ, inner, var, c, last, step, body, i => do
    if ← lift (i.ordered c last) then
      setVar σ var (some (.number i))
      block fuel inner body
      let next ← lift (i.add step)
      counted fuel σ inner var c last step body next
    else pure ()
end

/-- Evaluates a program in scope `σ`. Only an expression has a value. -/
def program (fuel σ : Nat) : Program → Eval (Option Value)
  | .expr e => expr fuel σ e
  | .stmt s => (fun _ => none) <$> stmt fuel σ s
  | .block b => (fun _ => none) <$> block fuel σ b
  | .inert => pure none

end ScriptLang.Eval
