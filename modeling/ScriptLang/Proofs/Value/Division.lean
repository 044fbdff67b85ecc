import ScriptLang.Datum.Arith
import ScriptLang.Datum.Order

/-!
Division by what equals zero.

A datum that equals the whole number zero divides nothing: whatever the kinds of the two operands
are, division faults (`Datum.div_of_same_zero`). Both zeros of binary64 numbers count, so zero is a
class of numbers here and not one number.
-/

namespace ScriptLang.Number

/-- Zero of either sign. -/
def IsZero (x : Float) : Prop := ∃ sign, x.toModel.unpack = .zero sign

theorem isZero_zero : IsZero 0.0 := ⟨.positive, rfl⟩

/-- The two zeros differ in their first bit only. -/
theorem isZero_of_toBits {x : Float} (h : x.toBits = 0 ∨ x.toBits = 0x8000000000000000) :
    IsZero x := by
  unfold IsZero Float.Model.unpack
  rcases h with h | h
  · rw [show x.toModel.toBits = 0 from h]
    exact ⟨.positive, rfl⟩
  · rw [show x.toModel.toBits = 0x8000000000000000 from h]
    exact ⟨.negative, rfl⟩

theorem IsZero.compare {x y : Float} (hx : IsZero x) (hy : IsZero y) :
    x.toModel.unpack.compare y.toModel.unpack = some .eq := by
  obtain ⟨_, hx⟩ := hx
  obtain ⟨_, hy⟩ := hy
  rw [hx, hy]
  rfl

theorem IsZero.beq {x : Float} (h : IsZero x) : (x == 0.0) = true := by
  show (x.toModel.unpack.compare (0.0 : Float).toModel.unpack == some .eq) = true
  rw [h.compare isZero_zero]
  rfl

theorem IsZero.not_lt {x : Float} (h : IsZero x) : ¬ x < 0.0 := by
  show ¬ decide ((x.toModel.unpack.compare (0.0 : Float).toModel.unpack == some .lt) = true) = true
  rw [h.compare isZero_zero]
  decide

theorem IsZero.le {x y : Float} (hx : IsZero x) (hy : IsZero y) : x ≤ y := by
  show decide ((x.toModel.unpack.compare y.toModel.unpack).any (·.isLE) = true) = true
  rw [hx.compare hy]
  rfl

theorem isZero_of_beq {x : Float} (h : (x == 0.0) = true) : IsZero x := by
  change (x.toModel.unpack.compare (.zero .positive) == some .eq) = true at h
  cases unpacked : x.toModel.unpack with
  | zero sign => exact ⟨sign, unpacked⟩
  | notANumber =>
    rw [unpacked] at h
    cases h
  | infinity sign | finite sign =>
    rw [unpacked] at h
    cases sign <;> cases h

theorem Dyadic.significand_of_ratio {d : Dyadic} (h : d.ratio.1 = 0) : d.significand = 0 := by
  have magnitude : (if d.negative then -(d.significand : Int) else d.significand) = 0 := by
    simp only [ratio] at h
    by_cases sign : 0 ≤ d.exponent
    · rw [if_pos sign] at h
      exact (Int.mul_eq_zero.mp h).resolve_right (Int.ne_of_gt (Int.pow_pos (by decide)))
    · rw [if_neg sign] at h
      exact h
  split at magnitude <;> omega

theorem isZero_of_unpack {x : Float} {d : Dyadic} (h : unpack x = .finite d)
    (zero : d.significand = 0) : IsZero x := by
  have small : x.toBits.toNat < 2 ^ 64 := x.toBits.toNat_lt
  unfold unpack fractionBits at h
  simp only [beq_iff_eq] at h
  split at h
  · split at h <;> cases h
  · split at h
    · cases h
      have bits : x.toBits.toNat = 0 ∨ x.toBits.toNat = 0x8000000000000000 := by
        simp only at zero
        omega
      exact isZero_of_toBits (bits.imp UInt64.toNat_inj.mp UInt64.toNat_inj.mp)
    · cases h
      simp at zero

theorem isZero_of_compareInt {x : Float} (h : (compareInt 0 x == some .eq) = true) :
    IsZero x := by
  unfold compareInt at h
  split at h
  · cases h
  · split at h <;> cases h
  · rename_i d unpacked
    refine isZero_of_unpack unpacked (Dyadic.significand_of_ratio ?_)
    have eq : compare (0 : Int) d.ratio.1 = .eq := by simpa using h
    exact (Std.compare_eq_iff_eq.mp eq).symm

end ScriptLang.Number

namespace ScriptLang
open Number (IsZero)

theorem Number.Pair.div_zero {a b : Number.Pair} (re : IsZero b.re) (im : IsZero b.im) :
    a.div b = .error .divisionByZero := by
  unfold Number.Pair.div
  simp [re.not_lt, im.not_lt, im.le re, re.beq]

namespace Num

theorem realOf_zero {x : Float} (h : realOf 0 = .ok x) : IsZero x := by
  cases h
  exact ⟨.positive, rfl⟩

/-- The second of two numbers of one kind is zero. -/
def Same.OverZero : Same → Prop
  | .whole _ b => b = 0
  | .real _ b => IsZero b
  | .complex _ b => IsZero b.re ∧ IsZero b.im

theorem pairOf_zero {b : Num} {z : Number.Pair} (h : b.same (.whole 0) = true)
    (paired : pairOf b = .ok z) : IsZero z.re ∧ IsZero z.im := by
  cases b with
  | whole i =>
    have eq : i = 0 := by simpa [Num.same] using h
    subst eq
    cases paired
    exact ⟨realOf_zero rfl, Number.isZero_zero⟩
  | real x =>
    cases paired
    exact ⟨Number.isZero_of_compareInt h, Number.isZero_zero⟩
  | complex re im =>
    cases paired
    rw [Num.same, Bool.and_eq_true] at h
    exact ⟨Number.isZero_of_compareInt h.1, Number.isZero_of_beq h.2⟩

theorem unify_zero {a b : Num} {s : Same} (h : b.same (.whole 0) = true)
    (unified : unify a b = .ok s) : s.OverZero := by
  unfold unify at unified
  split at unified
  · cases unified
    simpa [Num.same, Same.OverZero] using h
  · rename_i i x
    cases left : realOf i with
    | error f => simp [left, Except.map] at unified
    | ok y =>
      rw [left] at unified
      cases unified
      exact Number.isZero_of_compareInt h
  · rename_i x i
    have eq : i = 0 := by simpa [Num.same] using h
    subst eq
    cases unified
    exact realOf_zero rfl
  · cases unified
    exact Number.isZero_of_compareInt h
  · split at unified
    · rename_i right
      cases unified
      exact pairOf_zero h right
    · cases unified
    · cases unified

theorem div_of_same_zero (a : Num) {b : Num} (h : b.same (.whole 0) = true) :
    ∃ f, a.div b = .error f := by
  unfold div
  split
  · exact ⟨_, rfl⟩
  · rename_i i j unified
    have zero : j = 0 := unify_zero h unified
    exact ⟨_, by rw [zero]; rfl⟩
  · rename_i x y unified
    have zero : IsZero y := unify_zero h unified
    exact ⟨_, by rw [zero.beq]; rfl⟩
  · rename_i z w unified
    have zero : IsZero w.re ∧ IsZero w.im := unify_zero h unified
    exact ⟨_, by rw [Number.Pair.div_zero zero.1 zero.2]⟩

end Num

/-- Division by a datum that equals zero faults. -/
theorem Datum.div_of_same_zero (a : Datum) {b : Datum} (h : b.same (.int 0) = true) :
    ∃ f, a.div b = .error f := by
  unfold div onNumbers
  split
  · rename_i x y _ right
    have zero : y.same (.whole 0) = true := by
      cases b <;> cases right <;> simpa [Datum.same, Datum.num?] using h
    obtain ⟨f, failed⟩ := Num.div_of_same_zero x zero
    exact ⟨f, by rw [failed]; rfl⟩
  · exact ⟨_, rfl⟩

end ScriptLang
