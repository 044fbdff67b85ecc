import ScriptLang.Code.Compiler
import ScriptLang.Machine.Operation

/-!
The operations of the two engines.

The evaluator and the machine each have a table of operations, and the compiler has a table of the
operations that operators stand for. The machine's tests of the tags come one after the other where
the evaluator looks at both tags at once; the tables agree on every pair of values, failures
included.
-/

namespace ScriptLang

namespace Machine

theorem tagged_eq (tag : Tag) (x : Except Fault Datum) :
    tagged tag x = (x.map (Value.mk tag)).mapError OperationError.fault := by
  cases x <;> rfl

theorem tagged_bool (x : Except Fault Bool) :
    tagged .bool (x.map Datum.bool) = (x.map Value.bool).mapError OperationError.fault := by
  cases x <;> rfl

theorem tagged_join (d e : Datum) :
    tagged .string (do
      let s ← d.stringify
      let t ← e.stringify
      pure (.str (s ++ t))) =
      ((BinaryOp.join d e).map Value.string).mapError OperationError.fault := by
  unfold BinaryOp.join
  cases d.stringify with
  | error f => rfl
  | ok s => cases e.stringify <;> rfl

theorem sum_eq_apply (a b : Value) : sum a b = BinaryOp.apply .add a b := by
  obtain ⟨s, d⟩ := a
  obtain ⟨t, e⟩ := b
  cases s with
  | number =>
    cases t with
    | number => exact tagged_eq .number _
    | string => exact tagged_join d e
    | bool | other => rfl
  | string => cases t <;> exact tagged_join d e
  | bool | other =>
    cases t with
    | string => exact tagged_join d e
    | number | bool | other => rfl

theorem arithmetic_eq_onNumbers (f : Datum → Datum → Except Fault Datum) (a b : Value) :
    arithmetic f a b = BinaryOp.onNumbers f a b := by
  obtain ⟨s, d⟩ := a
  obtain ⟨t, e⟩ := b
  cases s with
  | number =>
    cases t with
    | number => exact tagged_eq .number _
    | string | bool | other => rfl
  | string | bool | other => rfl

theorem comparison_eq_apply (c : Comparison) (a b : Value) :
    comparison c a b = BinaryOp.apply (.order c) a b := by
  obtain ⟨s, d⟩ := a
  obtain ⟨t, e⟩ := b
  cases s with
  | number =>
    cases t with
    | number => exact tagged_bool _
    | string | bool | other => rfl
  | string =>
    cases t with
    | string => exact tagged_bool _
    | number | bool | other => rfl
  | bool | other => rfl

theorem sameness_false_eq_apply (a b : Value) : sameness false a b = BinaryOp.apply .eq a b := by
  obtain ⟨s, d⟩ := a
  obtain ⟨t, e⟩ := b
  cases s <;> cases t <;> simp [sameness, BinaryOp.apply, Value.bothNumbers, Value.bothTruths,
    Value.bothTexts]

theorem sameness_true_eq_apply (a b : Value) : sameness true a b = BinaryOp.apply .ne a b := by
  obtain ⟨s, d⟩ := a
  obtain ⟨t, e⟩ := b
  cases s <;> cases t <;> simp [sameness, BinaryOp.apply, Value.bothNumbers, Value.bothTruths,
    Value.bothTexts]

/-- The machine's operations are the evaluator's. -/
theorem result_eq_apply (op : BinaryOp) (a b : Value) : result op a b = op.apply a b := by
  cases op with
  | add => exact sum_eq_apply a b
  | sub | mul | div | mod | pow => exact arithmetic_eq_onNumbers _ a b
  | order c => exact comparison_eq_apply c a b
  | eq => exact sameness_false_eq_apply a b
  | ne => exact sameness_true_eq_apply a b

/-- The machine's negation is the evaluator's. -/
theorem negative_eq_neg (v : Value) : negative v = v.neg := by
  obtain ⟨t, d⟩ := v
  cases t with
  | number => exact tagged_eq .number _
  | string | bool | other => rfl

end Machine

/-- The compiler takes an operator for the operation that the evaluator takes it for. -/
theorem Compiler.opcode?_eq_ofKind? (k : Kind) : opcode? k = BinaryOp.ofKind? k := by
  cases k <;> rfl

end ScriptLang
