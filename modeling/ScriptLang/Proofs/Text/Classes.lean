import Mathlib
import ScriptLang.Token.Scanner

/-!
Classes of characters that are apart.

No digit of any script is a letter, so a character that starts a number starts no name
(`isNameStart_of_isDigit`). Signs and quotes start neither.
-/

namespace ScriptLang.Text

/-- A range that is found is one of the ranges, and holds the code point. -/
theorem Ranges.search_some {r : Ranges} {n lo hi a b : Nat} (h : r.search n lo hi = some (a, b)) :
    (a, b) ∈ r.pairs ∧ a ≤ n ∧ n ≤ b := by
  fun_induction r.search n lo hi with
  | case1 | case5 => cases h
  | case2 lo hi _ mid first last found _ ih => exact ih h
  | case3 lo hi _ mid first last found _ _ ih => exact ih h
  | case4 lo hi _ mid first last found notBelow notAbove =>
    cases h
    exact ⟨Array.mem_of_getElem? found, Nat.le_of_not_lt notBelow, Nat.le_of_not_lt notAbove⟩

/-- Ranges as one number: the bits of the code points that they hold. -/
def Ranges.mask (pairs : List (Nat × Nat)) : Nat :=
  pairs.foldr (fun p bits => (1 <<< (p.2 + 1 - p.1) - 1) <<< p.1 ||| bits) 0

theorem Ranges.testBit_mask {pairs : List (Nat × Nat)} {n a b : Nat} (mem : (a, b) ∈ pairs)
    (le : a ≤ n) (ge : n ≤ b) : (mask pairs).testBit n = true := by
  induction pairs with
  | nil => cases mem
  | cons p rest ih =>
    rw [mask, List.foldr_cons, Nat.testBit_or, Nat.testBit_shiftLeft, Nat.one_shiftLeft,
      Nat.testBit_two_pow_sub_one, Bool.or_eq_true]
    rcases List.mem_cons.mp mem with rfl | mem
    · left
      have inside : n - a < b + 1 - a := by omega
      simp [le, inside]
    · right
      exact ih mem

theorem Ranges.testBit_of_contains {r : Ranges} {n : Nat} (h : r.contains n = true) :
    (mask r.pairs.toList).testBit n = true := by
  obtain ⟨⟨a, b⟩, found⟩ := Option.isSome_iff_exists.mp h
  obtain ⟨mem, le, ge⟩ := search_some found
  exact testBit_mask (Array.mem_toList_iff.mpr mem) le ge

theorem masks_apart :
    Ranges.mask digitRanges.pairs.toList &&& Ranges.mask letterRanges.pairs.toList = 0 := by
  decide +kernel

theorem isLetter_of_isDigit {c : Char} (digit : isDigit c = true) : isLetter c = false := by
  unfold isDigit at digit
  unfold isLetter
  by_cases ascii : c.toNat < 128
  · rw [if_pos ascii] at digit ⊢
    grind [Char.isDigit, Char.isAlpha, Char.isUpper, Char.isLower]
  · rw [if_neg ascii] at digit ⊢
    rw [Bool.eq_false_iff]
    intro letter
    have both : (Ranges.mask digitRanges.pairs.toList &&&
        Ranges.mask letterRanges.pairs.toList).testBit c.toNat = true := by
      rw [Nat.testBit_and, Ranges.testBit_of_contains digit, Ranges.testBit_of_contains letter]
      rfl
    rw [masks_apart] at both
    simp at both

theorem isNameStart_of_isDigit {c : Char} (digit : isDigit c = true) :
    Scanner.isNameStart c = false := by
  have other : c ≠ '_' := by
    rintro rfl
    cases digit
  simp [Scanner.isNameStart, isLetter_of_isDigit digit, other]

/-- The characters that signs and strings start with. -/
def marks : List Char :=
  ['(', ')', '\x7b', '\x7d', '[', ']', '.', ',', '+', '*', '^', '/', ';', '?', '%', '-', '=', '~',
    '<', '>', ':', '"', '\'']

theorem marks_plain : ∀ c ∈ marks, isDigit c = false ∧ Scanner.isNameStart c = false := by
  have all : (marks.all fun c => !isDigit c && !Scanner.isNameStart c) = true := by decide
  simpa only [List.all_eq_true, Bool.and_eq_true, Bool.not_eq_true'] using all

end ScriptLang.Text
