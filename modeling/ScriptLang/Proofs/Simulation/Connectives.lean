import Mathlib
import ScriptLang.Proofs.Machine.Operations
import ScriptLang.Proofs.Simulation.CallFree

/-!
`and` and `or` on both engines.

The evaluator skips the right operand where the left one decides. The machine evaluates both and
joins their values. The two agree on an expression in which all operands of `and` and `or` have
truth values (`connectives_agree`), and need not agree where a skipped operand has none.
-/

namespace ScriptLang.Simulation

open Compiler (wordOp?)
open Machine (Runs)

variable {st st' : Store} {σ fuel : Nat} {e l r : Expr} {c c' : Compiler} {s : Array Cell}
  {fr : List Frame} {gl : List (Slot × Cell)} {v : Value} {op : Token} {line : Line}

/-- The machine finds each variable of an expression with its value in a scope. -/
def Shown (st : Store) (σ : Nat) (c : Compiler) (s : Array Cell) (fr : List Frame)
    (gl : List (Slot × Cell)) (e : Expr) : Prop :=
  ∀ n line, .name n line ∈ e.parts →
    ∃ v, st.forest.getVar σ n = some v ∧ v.Honest ∧ Finds c s fr gl n v

theorem Shown.of_subset (shown : Shown st σ c s fr gl e) (sub : l.parts ⊆ e.parts) :
    Shown st σ c s fr gl l :=
  fun n line mem => shown n line (sub mem)

/-- Variables are found again after some code has pushed a value. -/
theorem Shown.after {cell : Cell} (shown : Shown st σ c s fr gl e)
    (passes : Passes fr gl c s c' (s.push cell)) : Shown st σ c' (s.push cell) fr gl e := by
  intro n line mem
  obtain ⟨v, found, honest, finds⟩ := shown n line mem
  exact ⟨v, found, honest, (finds.same passes.scope).push cell⟩

/-- An expression has a truth value in a scope. -/
def HasTruth (st : Store) (σ : Nat) (e : Expr) : Prop :=
  ∃ fuel b, Eval.expr fuel σ e st = .ok (some (.bool b)) st

/-- Every operand of `and` and `or` in an expression has a truth value, whether it is skipped or
not. -/
def Decided (st : Store) (σ : Nat) (e : Expr) : Prop :=
  ∀ op l r line, .logical op l r line ∈ e.parts →
    (op.kind = .kwAnd ∨ op.kind = .kwOr) ∧ HasTruth st σ l ∧ HasTruth st σ r

theorem Decided.of_subset (decided : Decided st σ e) (sub : l.parts ⊆ e.parts) :
    Decided st σ l :=
  fun op l r line mem => decided op l r line (sub mem)

/-- On truth values, joining both is as good as skipping the second where the first decides. -/
theorem bitwise_eq_ite {o : Bitwise} (word : wordOp? op.kind = some o) (a b : Bool) :
    (Value.bool a).bitwise o (.bool b) =
      .ok (if Eval.decides op (.bool a) then .bool a else .bool b) := by
  cases kind : op.kind with
  | kwAnd | kwOr =>
    rw [kind] at word
    cases word
    rw [Eval.decides, kind]
    cases a <;> cases b <;> rfl
  | _ =>
    rw [kind] at word
    cases word

theorem join_of_logical {o : Bitwise} {a b : Bool} {n m : Nat} (word : wordOp? op.kind = some o)
    (left : Eval.expr n σ l st = .ok (some (.bool a)) st)
    (right : Eval.expr m σ r st = .ok (some (.bool b)) st)
    (done : Eval.expr (fuel + 1) σ (.logical op l r line) st = .ok (some v) st') :
    v.Honest ∧ (Value.bool a).bitwise o (.bool b) = .ok v := by
  rw [Eval.expr] at done
  obtain ⟨_, _, first, rest⟩ := Eval.demand_bind_eq_ok.mp done
  obtain ⟨⟨⟩, rfl⟩ := Eval.expr_unique left first
  rw [bitwise_eq_ite word]
  cases decided : Eval.decides op (.bool a) with
  | true =>
    rw [decided] at rest
    cases rest
    exact ⟨Value.honest_bool a, rfl⟩
  | false =>
    rw [decided] at rest
    obtain ⟨⟨⟩, -⟩ := Eval.expr_unique right rest
    exact ⟨Value.honest_bool b, rfl⟩

/-! ### Forms of expressions -/

/-- Where the evaluator finds the value of an expression, the code of the expression pushes it. -/
structure Pushes (st : Store) (σ : Nat) (fr : List Frame) (gl : List (Slot × Cell)) (e : Expr) :
    Prop where
  value : ∀ {fuel v st' c s}, Shown st σ c s fr gl e →
    Eval.expr (fuel + 1) σ e st = .ok (some v) st' →
    v.Honest ∧ ∃ c', Compiler.expr e c = .ok () c' ∧ Passes fr gl c s c' (s.push (.value v))

theorem Pushes.passes (pushes : Pushes st σ fr gl e) (shown : Shown st σ c s fr gl e)
    (done : Eval.expr fuel σ e st = .ok (some v) st') :
    v.Honest ∧ ∃ c', Compiler.expr e c = .ok () c' ∧ Passes fr gl c s c' (s.push (.value v)) := by
  cases fuel with
  | zero =>
    rw [Eval.expr] at done
    exact absurd done throw_ne_ok
  | succ fuel => exact pushes.value shown done

theorem pushes_literal {w : Value} (honest : w.Honest)
    (value : ∀ fuel, Eval.expr (fuel + 1) σ e = pure (some w))
    (compiled : Compiler.expr e = Compiler.emit (.push (.value w))) : Pushes st σ fr gl e := by
  refine ⟨fun {fuel v st' c s} shown done => ?_⟩
  rw [value] at done
  cases done
  exact ⟨honest, c.add (.push (.value w)), by rw [compiled]; rfl, passes_push w⟩

theorem pushes_integer (n : Int) (line : Line) : Pushes st σ fr gl (.integer n line) := by
  cases known : Number.ofInt? n with
  | some x =>
    apply pushes_literal (Value.honest_number (.float x))
    · intro fuel
      rw [Eval.expr, known]
    · rw [Compiler.expr, Compiler.pushInt, known]
  | none =>
    refine ⟨fun shown done => ?_⟩
    rw [Eval.expr, known] at done
    exact absurd done throw_ne_ok

theorem pushes_name (n : String) (line : Line) : Pushes st σ fr gl (.name n line) := by
  refine ⟨fun {fuel v st' c s} shown done => ?_⟩
  rw [Eval.expr] at done
  obtain ⟨_, found, ⟨⟩⟩ := map_eq_ok.mp done
  obtain ⟨found, -⟩ := Eval.lookup_eq_ok found
  obtain ⟨w, found', honest, finds⟩ := shown n line (Expr.mem_parts _)
  cases found'.symm.trans found
  exact ⟨honest, finds.passes line⟩

theorem Pushes.group (inner : Pushes st σ fr gl e) : Pushes st σ fr gl (.group e line) := by
  refine ⟨fun {fuel v st' c s} shown done => ?_⟩
  rw [Eval.expr] at done
  rw [Compiler.expr]
  exact inner.passes (shown.of_subset (by simp [Expr.parts])) done

theorem Pushes.unary (operand : Pushes st σ fr gl e) : Pushes st σ fr gl (.unary op e line) := by
  refine ⟨fun {fuel v st' c s} shown done => ?_⟩
  rw [Eval.expr] at done
  obtain ⟨a, st₁, first, rest⟩ := Eval.demand_bind_eq_ok.mp done
  obtain ⟨honest, c₁, compiled, passes⟩ :=
    operand.passes (shown.of_subset (by simp [Expr.parts])) first
  rw [Compiler.expr, bind_of_ok compiled]
  rcases Eval.kind_of_unary rest with kind | kind | kind
  · obtain ⟨_, ⟨⟩, negated, -⟩ := Eval.minus_eq_ok kind rest
    rw [kind]
    exact ⟨Value.honest_of_neg negated, c₁.add .neg, rfl,
      passes.trans (passes_add fun fetch =>
        Machine.runs_neg fetch ((Machine.negative_eq_neg _).trans negated))⟩
  · obtain ⟨⟨⟩, -⟩ := Eval.plus_eq_ok kind rest
    rw [kind]
    exact ⟨honest, c₁, rfl, passes⟩
  · obtain ⟨tag, ⟨⟩, -⟩ := Eval.tilde_eq_ok kind rest
    rw [kind]
    exact ⟨Value.honest_bool _, (c₁.add (.push (.value (.bool true)))).add (.bitwise .xor), rfl,
      (passes.trans (passes_push _)).trans
        (passes_add fun fetch => Machine.runs_bitwise fetch (honest.xor_true tag))⟩

/-- The code of two operands, one after the other, pushes both values. -/
theorem Pushes.pair {n m : Nat} {a b : Value} {st₁ st₂ : Store} (left : Pushes st σ fr gl l)
    (right : Pushes st σ fr gl r) (shown : Shown st σ c s fr gl l)
    (shown' : Shown st σ c s fr gl r) (first : Eval.expr n σ l st = .ok (some a) st₁)
    (second : Eval.expr m σ r st = .ok (some b) st₂) :
    ∃ c₁ c₂, Compiler.expr l c = .ok () c₁ ∧ Compiler.expr r c₁ = .ok () c₂ ∧
      Passes fr gl c s c₂ ((s.push (.value a)).push (.value b)) := by
  obtain ⟨-, c₁, compiled, passes⟩ := left.passes shown first
  obtain ⟨-, c₂, compiled', passes'⟩ := right.passes (shown'.after passes) second
  exact ⟨c₁, c₂, compiled, compiled', passes.trans passes'⟩

theorem Pushes.binary (callFree : l.all (fun x => !x.isCall) = true) (left : Pushes st σ fr gl l)
    (right : Pushes st σ fr gl r) : Pushes st σ fr gl (.binary op l r line) := by
  refine ⟨fun {fuel v st' c s} shown done => ?_⟩
  rw [Eval.expr] at done
  obtain ⟨a, st₁, first, rest⟩ := Eval.demand_bind_eq_ok.mp done
  obtain ⟨b, st₂, second, last⟩ := Eval.demand_bind_eq_ok.mp rest
  rw [Eval.reads_expr _ _ _ callFree _ _ _ first] at second
  obtain ⟨o, known⟩ := Eval.ofKind?_of_binary last
  obtain ⟨_, ⟨⟩, applied, -⟩ := Eval.binary_eq_ok known last
  obtain ⟨c₁, c₂, compiled, compiled', passes⟩ := left.pair right
    (shown.of_subset (by simp [Expr.parts])) (shown.of_subset (by simp [Expr.parts])) first second
  rw [Compiler.expr, bind_of_ok compiled, bind_of_ok compiled', Compiler.emitBinary,
    Compiler.opcode?_eq_ofKind?, known]
  exact ⟨Value.honest_of_apply applied, c₂.add (.binary o), rfl,
    passes.trans (passes_add fun fetch =>
      Machine.runs_binary fetch ((Machine.result_eq_apply o a b).trans applied))⟩

theorem Pushes.logical (left : Pushes st σ fr gl l) (right : Pushes st σ fr gl r)
    (word : op.kind = .kwAnd ∨ op.kind = .kwOr) (truth : HasTruth st σ l)
    (truth' : HasTruth st σ r) : Pushes st σ fr gl (.logical op l r line) := by
  refine ⟨fun {fuel v st' c s} shown done => ?_⟩
  obtain ⟨n, a, first⟩ := truth
  obtain ⟨m, b, second⟩ := truth'
  obtain ⟨c₁, c₂, compiled, compiled', passes⟩ := left.pair right
    (shown.of_subset (by simp [Expr.parts])) (shown.of_subset (by simp [Expr.parts])) first second
  rw [Compiler.expr, bind_of_ok compiled, bind_of_ok compiled']
  rcases word with kind | kind
  · obtain ⟨honest, joined⟩ :=
      join_of_logical (o := .and) (by rw [kind]; rfl) first second done
    rw [kind]
    exact ⟨honest, c₂.add (.bitwise .and), rfl,
      passes.trans (passes_add fun fetch => Machine.runs_bitwise fetch joined)⟩
  · obtain ⟨honest, joined⟩ :=
      join_of_logical (o := .or) (by rw [kind]; rfl) first second done
    rw [kind]
    exact ⟨honest, c₂.add (.bitwise .or), rfl,
      passes.trans (passes_add fun fetch => Machine.runs_bitwise fetch joined)⟩

theorem pushes_of_decided (e : Expr) (callFree : e.all (fun x => !x.isCall) = true)
    (decided : Decided st σ e) : Pushes st σ fr gl e := by
  match e with
  | .integer n line => exact pushes_integer n line
  | .real value line =>
    apply pushes_literal (Value.honest_number (.float value))
    · intro fuel
      rw [Eval.expr]
    · rw [Compiler.expr]
  | .text value line =>
    apply pushes_literal (Value.honest_string value)
    · intro fuel
      rw [Eval.expr]
    · rw [Compiler.expr]
  | .bool value line =>
    apply pushes_literal (Value.honest_bool value)
    · intro fuel
      rw [Eval.expr]
    · rw [Compiler.expr]
  | .name n line => exact pushes_name n line
  | .group inner line =>
    simp only [Expr.all, Bool.and_eq_true] at callFree
    exact (pushes_of_decided inner callFree.2 (decided.of_subset (by simp [Expr.parts]))).group
  | .unary op operand line =>
    simp only [Expr.all, Bool.and_eq_true] at callFree
    exact (pushes_of_decided operand callFree.2 (decided.of_subset (by simp [Expr.parts]))).unary
  | .binary op left right line =>
    simp only [Expr.all, Bool.and_eq_true] at callFree
    exact (pushes_of_decided left callFree.1.2 (decided.of_subset (by simp [Expr.parts]))).binary
      callFree.1.2 (pushes_of_decided right callFree.2 (decided.of_subset (by simp [Expr.parts])))
  | .logical op left right line =>
    simp only [Expr.all, Bool.and_eq_true] at callFree
    obtain ⟨word, truth, truth'⟩ := decided op left right line (Expr.mem_parts _)
    exact (pushes_of_decided left callFree.1.2 (decided.of_subset (by simp [Expr.parts]))).logical
      (pushes_of_decided right callFree.2 (decided.of_subset (by simp [Expr.parts])))
      word truth truth'
  | .call n args line => simp [Expr.all, Expr.isCall] at callFree
termination_by structural e

/-- On an expression without calls in which every operand of `and` and `or` has a truth value, both
engines find the same value: the machine runs through the code of the expression, pushes the value
of the expression and changes nothing else. -/
theorem connectives_agree (callFree : e.all (fun x => !x.isCall) = true)
    (shown : Shown st σ c s fr gl e) (decided : Decided st σ e)
    (done : Eval.expr fuel σ e st = .ok (some v) st') :
    ∃ c', Compiler.expr e c = .ok () c' ∧ ∀ code labels out, c'.Begins code →
      Runs code labels ⟨c.code.size, s, fr, gl, out⟩
        ⟨c'.code.size, s.push (.value v), fr, gl, out⟩ := by
  obtain ⟨-, c', compiled, passes⟩ := (pushes_of_decided e callFree decided).passes shown done
  exact ⟨c', compiled, fun code labels out begins => passes.runs begins⟩

/-- A test that guards a division: `x ~= 0 and 10 / x > 1`. -/
def guardedQuotient : Expr :=
  .logical ⟨.kwAnd, "and", 1⟩ (.binary ⟨.ne, "~=", 1⟩ (.name "x" 1) (.integer 0 1) 1)
    (.binary ⟨.gt, ">", 1⟩ (.binary ⟨.slash, "/", 1⟩ (.integer 10 1) (.name "x" 1) 1)
      (.integer 1 1) 1) 1

/-- A whole number as a value. -/
def whole (n : Nat) : Value := .number (.float (Number.nearest false n 1))

/-- The scopes with one variable at top level. -/
def storeOf (n : Nat) : Store := ⟨Forest.root.setLocal 0 "x" (some (whole n)), ""⟩

/-- The global of the machine for this variable. -/
def globalsOf (n : Nat) : List (Slot × Cell) := [(.index 0, .value (whole n))]

/-- The state of a compiler that knows this variable. -/
def knowing : Compiler := { Compiler.empty with globals := #[⟨"x", false, 0, 0⟩] }

theorem getVar_storeOf (n : Nat) : (storeOf n).forest.getVar 0 "x" = some (whole n) := by
  unfold storeOf
  generalize whole n = v
  cbv

theorem shown_guardedQuotient (n : Nat) :
    Shown (storeOf n) 0 knowing #[] [] (globalsOf n) guardedQuotient := by
  intro x line mem
  simp only [guardedQuotient, Expr.parts, List.mem_cons, List.mem_append, reduceCtorEq,
    Expr.name.injEq, List.not_mem_nil, or_false, false_or, or_self] at mem
  obtain ⟨rfl, -⟩ := mem
  exact ⟨whole n, getVar_storeOf n, Value.honest_number _,
    .global (x := ⟨"x", false, 0, 0⟩) (j := 0) rfl rfl rfl⟩

theorem name_storeOf (n fuel : Nat) :
    Eval.expr (fuel + 1) 0 (.name "x" 1) (storeOf n) = .ok (some (whole n)) (storeOf n) := by
  rw [Eval.expr]
  refine map_eq_ok.mpr ⟨whole n, ?_, rfl⟩
  rw [Eval.lookup, get_bind, getVar_storeOf]
  rfl

theorem guard_storeOf {n : Nat} {b : Bool}
    (applied : BinaryOp.apply .ne (whole n) (whole 0) = .ok (.bool b)) :
    Eval.expr 3 0 (.binary ⟨.ne, "~=", 1⟩ (.name "x" 1) (.integer 0 1) 1) (storeOf n) =
      .ok (some (.bool b)) (storeOf n) := by
  have zero : Eval.expr 2 0 (.integer 0 1) (storeOf n) = .ok (some (whole 0)) (storeOf n) := by
    rw [Eval.expr]
    rfl
  rw [Eval.expr]
  refine Eval.demand_bind_eq_ok.mpr ⟨_, _, name_storeOf n _,
    Eval.demand_bind_eq_ok.mpr ⟨_, _, zero, ?_⟩⟩
  simp only [Eval.binary, BinaryOp.ofKind?]
  rw [applied]
  rfl

theorem quotient_storeOf_two :
    Eval.expr 3 0 (.binary ⟨.gt, ">", 1⟩ (.binary ⟨.slash, "/", 1⟩ (.integer 10 1) (.name "x" 1) 1)
      (.integer 1 1) 1) (storeOf 2) = .ok (some (.bool true)) (storeOf 2) := by
  have one : Eval.expr 2 0 (.integer 1 1) (storeOf 2) = .ok (some (whole 1)) (storeOf 2) := by
    rw [Eval.expr]
    rfl
  have ten : Eval.expr 1 0 (.integer 10 1) (storeOf 2) = .ok (some (whole 10)) (storeOf 2) := by
    rw [Eval.expr]
    rfl
  have quotient : Eval.expr 2 0 (.binary ⟨.slash, "/", 1⟩ (.integer 10 1) (.name "x" 1) 1)
      (storeOf 2) = .ok (some (whole 5)) (storeOf 2) := by
    rw [Eval.expr]
    exact Eval.demand_bind_eq_ok.mpr ⟨_, _, ten,
      Eval.demand_bind_eq_ok.mpr ⟨_, _, name_storeOf 2 _, rfl⟩⟩
  rw [Eval.expr]
  exact Eval.demand_bind_eq_ok.mpr ⟨_, _, quotient, Eval.demand_bind_eq_ok.mpr ⟨_, _, one, rfl⟩⟩

theorem guardedQuotient_agrees :
    guardedQuotient.all (fun x => !x.isCall) = true ∧
    Shown (storeOf 2) 0 knowing #[] [] (globalsOf 2) guardedQuotient ∧
    Decided (storeOf 2) 0 guardedQuotient ∧
    Eval.expr 4 0 guardedQuotient (storeOf 2) = .ok (some (.bool true)) (storeOf 2) ∧
    ∃ c', Compiler.expr guardedQuotient knowing = .ok () c' ∧
      ∀ code labels out, c'.Begins code → Runs code labels ⟨0, #[], [], globalsOf 2, out⟩
        ⟨c'.code.size, #[.value (.bool true)], [], globalsOf 2, out⟩ := by
  have callFree : guardedQuotient.all (fun x => !x.isCall) = true := rfl
  have done : Eval.expr 4 0 guardedQuotient (storeOf 2) = .ok (some (.bool true)) (storeOf 2) := by
    rw [guardedQuotient, Eval.expr]
    exact Eval.demand_bind_eq_ok.mpr ⟨_, _, guard_storeOf rfl, quotient_storeOf_two⟩
  have decided : Decided (storeOf 2) 0 guardedQuotient := by
    intro op l r line mem
    simp only [guardedQuotient, Expr.parts, List.mem_cons, List.mem_append, reduceCtorEq,
      Expr.logical.injEq, List.not_mem_nil, or_false, or_self] at mem
    obtain ⟨rfl, rfl, rfl, -⟩ := mem
    exact ⟨.inl rfl, ⟨3, true, guard_storeOf rfl⟩, 3, true, quotient_storeOf_two⟩
  have shown := shown_guardedQuotient 2
  exact ⟨callFree, shown, decided, done, connectives_agree callFree shown decided done⟩

/-- Where the guard does not hold, the evaluator skips the division by zero and the machine
fails. -/
theorem guardedQuotient_fails :
    guardedQuotient.all (fun x => !x.isCall) = true ∧
    Shown (storeOf 0) 0 knowing #[] [] (globalsOf 0) guardedQuotient ∧
    Eval.expr 4 0 guardedQuotient (storeOf 0) = .ok (some (.bool false)) (storeOf 0) ∧
    ∃ c' m, Compiler.expr guardedQuotient knowing = .ok () c' ∧
      Machine.loop c'.code 9 (Machine.Config.machine [] ⟨0, #[], [], globalsOf 0, ""⟩) =
        (.failed (.fault (.division .real)), m) := by
  refine ⟨rfl, shown_guardedQuotient 0, ?_, _, _, rfl, rfl⟩
  rw [guardedQuotient, Eval.expr]
  exact Eval.demand_bind_eq_ok.mpr ⟨_, _, guard_storeOf rfl, rfl⟩

end ScriptLang.Simulation
