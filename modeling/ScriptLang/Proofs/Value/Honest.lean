import ScriptLang.Machine.Operation

/-!
Truth values that are tagged as such.

No operation puts the tag of truth values on other data, so a test of the tag is a test of the
datum. On truth values both engines test and negate alike.
-/

namespace ScriptLang.Value

variable {v w r : Value}

/-- A value tagged as a truth value is one. -/
def Honest (v : Value) : Prop := v.tag = .bool → ∃ b, v.datum = .bool b

theorem honest_number (d : Datum) : (number d).Honest := nofun

theorem honest_string (s : String) : (string s).Honest := nofun

theorem honest_bool (b : Bool) : (bool b).Honest := fun _ => ⟨b, rfl⟩

theorem honest_of_map {α : Type} {x : Except Fault α} {g : α → Value}
    (all : ∀ a, (g a).Honest) (h : (x.map g).mapError OperationError.fault = .ok r) : r.Honest := by
  cases x with
  | error f => cases h
  | ok a =>
    cases h
    exact all a

theorem honest_of_apply {op : BinaryOp} (h : op.apply v w = .ok r) : r.Honest := by
  cases op with
  | add =>
    simp only [BinaryOp.apply] at h
    split at h
    · exact honest_of_map honest_number h
    · exact honest_of_map honest_string h
    · exact honest_of_map honest_string h
    · cases h
  | sub | mul | div | mod | pow =>
    simp only [BinaryOp.apply, BinaryOp.onNumbers] at h
    split at h
    · exact honest_of_map honest_number h
    · cases h
  | order c =>
    simp only [BinaryOp.apply] at h
    split at h
    · exact honest_of_map honest_bool h
    · exact honest_of_map honest_bool h
    · cases h
  | eq | ne =>
    simp only [BinaryOp.apply] at h
    split at h
    · cases h
      exact honest_bool _
    · cases h
      exact honest_bool _
    · cases h
      exact honest_bool _
    · cases h

theorem honest_of_neg (h : v.neg = .ok r) : r.Honest := by
  unfold neg at h
  split at h
  · exact honest_of_map honest_number h
  · cases h

theorem Honest.eq_bool (honest : v.Honest) (tag : v.tag = .bool) : v = bool v.datum.truthy := by
  obtain ⟨t, d⟩ := v
  obtain ⟨b, rfl⟩ := honest tag
  cases tag
  cases b <;> rfl

/-- A jump that tests for zero jumps if the value is not true. -/
theorem Honest.same_zero (honest : v.Honest) (tag : v.tag = .bool) :
    v.datum.same (.int 0) = !v.datum.truthy := by
  rw [honest.eq_bool tag]
  cases v.datum.truthy <;> rfl

/-- The exclusive or with true is the negation. -/
theorem Honest.xor_true (honest : v.Honest) (tag : v.tag = .bool) :
    v.bitwise .xor (bool true) = .ok (bool (!v.datum.truthy)) := by
  rw [honest.eq_bool tag]
  cases v.datum.truthy <;> rfl

end ScriptLang.Value
