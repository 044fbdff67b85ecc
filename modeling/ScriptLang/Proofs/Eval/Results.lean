import ScriptLang.Eval.Run
import ScriptLang.Proofs.Sequence

/-!
What the elementary steps of the evaluator yield, if they yield anything.
-/

namespace ScriptLang.Eval

variable {st st' : Store} {v : Value} {r : Option Value}

/-- Where a value is needed, there is one. -/
theorem demand_bind_eq_ok {α : Type} {x : Eval (Option Value)} {k : Value → Eval α} {b : α} :
    (do let o ← x; let v ← demand o; k v) st = .ok b st' ↔
      ∃ v st₁, x st = .ok (some v) st₁ ∧ k v st₁ = .ok b st' := by
  constructor
  · intro done
    obtain ⟨o, st₁, first, rest⟩ := bind_eq_ok.mp done
    cases o with
    | none => cases rest
    | some v => exact ⟨v, st₁, first, rest⟩
  · rintro ⟨v, st₁, first, rest⟩
    rw [bind_of_ok first]
    exact rest

theorem lookup_eq_ok {σ : Nat} {n : String} {line : Line} (h : lookup σ n line st = .ok v st') :
    st.forest.getVar σ n = some v ∧ st' = st := by
  unfold lookup at h
  rw [get_bind] at h
  cases found : st.forest.getVar σ n with
  | none =>
    rw [found] at h
    cases h
  | some w =>
    cases datum : w.datum with
    | none =>
      simp only [found, datum] at h
      cases h
    | _ =>
      simp only [found, datum] at h
      cases h
      exact ⟨rfl, rfl⟩

theorem binary_eq_ok {op : Token} {o : BinaryOp} {a b : Value} {line : Line}
    (known : BinaryOp.ofKind? op.kind = some o) (h : binary op a b line st = .ok r st') :
    ∃ v, r = some v ∧ o.apply a b = .ok v ∧ st' = st := by
  unfold binary at h
  simp only [known] at h
  split at h
  · cases h
  · cases result : o.apply a b with
    | error e =>
      rw [result] at h
      cases e with
      | tags => cases h
      | fault f => cases h
    | ok v =>
      rw [result] at h
      cases h
      exact ⟨v, rfl, rfl, rfl⟩

theorem minus_eq_ok {op : Token} (kind : op.kind = .minus) (h : unary op v st = .ok r st') :
    ∃ w, r = some w ∧ v.neg = .ok w ∧ st' = st := by
  unfold unary at h
  simp only [kind] at h
  cases result : v.neg with
  | error e =>
    rw [result] at h
    cases e with
    | tags => cases h
    | fault f => cases h
  | ok w =>
    rw [result] at h
    cases h
    exact ⟨w, rfl, rfl, rfl⟩

theorem plus_eq_ok {op : Token} (kind : op.kind = .plus) (h : unary op v st = .ok r st') :
    r = some v ∧ st' = st := by
  unfold unary at h
  cases tag : v.tag with
  | number =>
    simp only [kind, tag] at h
    cases h
    exact ⟨rfl, rfl⟩
  | _ =>
    simp only [kind, tag] at h
    cases h

theorem tilde_eq_ok {op : Token} (kind : op.kind = .tilde) (h : unary op v st = .ok r st') :
    v.tag = .bool ∧ r = some (.bool (!v.datum.truthy)) ∧ st' = st := by
  unfold unary at h
  cases tag : v.tag with
  | bool =>
    simp only [kind, tag] at h
    cases h
    exact ⟨rfl, rfl, rfl⟩
  | _ =>
    simp only [kind, tag] at h
    cases h

end ScriptLang.Eval
