import ScriptLang.Text.Blank
import ScriptLang.Text.Digit

/-!
Words that are joined and cut again.

Words that hold no white space are found again in the text that joins them by spaces
(`words_intercalate`). A digit of any script is no white space (`isBlank_of_isDigit`).
-/

namespace ScriptLang.Text

/-! ### Digits -/

/-- A range that a search finds is one of the set and holds the code point. -/
theorem Ranges.search_eq_some {r : Ranges} {n lo hi : Nat} {range : Nat × Nat}
    (h : r.search n lo hi = some range) :
    range ∈ r.pairs ∧ range.1 ≤ n ∧ n ≤ range.2 := by
  fun_induction Ranges.search r n lo hi with
  | case1 => cases h
  | case2 _ _ _ _ _ _ _ _ ih => exact ih h
  | case3 _ _ _ _ _ _ _ _ _ ih => exact ih h
  | case4 lo hi _ mid first last found ge le =>
    cases h
    exact ⟨Array.mem_of_getElem? found, by omega, by omega⟩
  | case5 => cases h

/-- White space beyond ASCII. -/
def blankRanges : List (Nat × Nat) :=
  [(0x85, 0x85), (0xa0, 0xa0), (0x1680, 0x1680), (0x2000, 0x200a), (0x2028, 0x2029),
    (0x202f, 0x202f), (0x205f, 0x205f), (0x3000, 0x3000)]

/-- No range of a set holds white space. -/
def Ranges.Apart (r : Ranges) : Prop :=
  ∀ range ∈ r.pairs, ∀ blank ∈ blankRanges, range.2 < blank.1 ∨ blank.2 < range.1

theorem digitRanges_apart : digitRanges.Apart := by
  unfold Ranges.Apart
  decide

theorem decimalRanges_apart : decimalRanges.Apart := by
  unfold Ranges.Apart
  decide

theorem isBlank_of_isAsciiDigit {c : Char} (h : c.isDigit = true) : isBlank c = false := by
  have range : 48 ≤ c.toNat ∧ c.toNat ≤ 57 := by
    simpa [Char.isDigit, UInt32.le_iff_toNat_le] using h
  simp only [isBlank, Bool.or_eq_false_iff, Bool.and_eq_false_iff, decide_eq_false_iff_not,
    beq_eq_false_iff_ne]
  omega

theorem Ranges.Apart.isBlank_eq_false {r : Ranges} (apart : r.Apart) {c : Char}
    (large : ¬ c.toNat < 128) {range : Nat × Nat} (found : r.find? c.toNat = some range) :
    isBlank c = false := by
  obtain ⟨mem, least, most⟩ := Ranges.search_eq_some found
  have apart := apart range mem
  simp only [blankRanges, List.mem_cons, List.not_mem_nil, or_false, forall_eq_or_imp,
    forall_eq] at apart
  simp only [isBlank, Bool.or_eq_false_iff, Bool.and_eq_false_iff, decide_eq_false_iff_not,
    beq_eq_false_iff_ne]
  omega

theorem isBlank_of_isDigit {c : Char} (h : isDigit c = true) : isBlank c = false := by
  unfold isDigit at h
  split at h
  · exact isBlank_of_isAsciiDigit h
  · rename_i large
    obtain ⟨range, found⟩ := Option.isSome_iff_exists.mp h
    exact digitRanges_apart.isBlank_eq_false large found

/-! ### Words -/

/-- A text that is one word: not empty and without white space. -/
def IsWord (w : String) : Prop := w.toList ≠ [] ∧ ∀ c ∈ w.toList, isBlank c = false

theorem wordsAux_plain {c : Char} (h : isBlank c = false) (cs word : List Char) :
    wordsAux (c :: cs) word = wordsAux cs (c :: word) := by
  rw [wordsAux.eq_def]
  simp only [h, Bool.false_eq_true, if_false]

theorem wordsAux_append {cs : List Char} (h : ∀ c ∈ cs, isBlank c = false)
    (rest word : List Char) : wordsAux (cs ++ rest) word = wordsAux rest (cs.reverse ++ word) := by
  induction cs generalizing word with
  | nil => rfl
  | cons c cs ih =>
    obtain ⟨plain, others⟩ := List.forall_mem_cons.mp h
    rw [List.cons_append, wordsAux_plain plain, ih others]
    simp

theorem wordsAux_nil {word : List Char} (h : word ≠ []) : wordsAux [] word = [word.reverse] := by
  cases word with
  | nil => exact absurd rfl h
  | cons c cs => rfl

theorem wordsAux_space {word : List Char} (rest : List Char) (h : word ≠ []) :
    wordsAux (' ' :: rest) word = word.reverse :: wordsAux rest [] := by
  cases word with
  | nil => exact absurd rfl h
  | cons c cs => rfl

/-- Words joined by spaces are found again. -/
theorem words_intercalate {ws : List String} (h : ∀ w ∈ ws, IsWord w) :
    words (" ".intercalate ws) = ws := by
  suffices cut : wordsAux (" ".intercalate ws).toList [] = ws.map String.toList by
    rw [words, cut]
    simp
  induction ws with
  | nil => rfl
  | cons w ws ih =>
    obtain ⟨nonempty, plain⟩ := h w List.mem_cons_self
    have reversed : w.toList.reverse ≠ [] := by simpa using nonempty
    have others := ih fun w mem => h w (List.mem_cons_of_mem _ mem)
    cases ws with
    | nil =>
      have := wordsAux_append plain [] []
      simp only [List.append_nil] at this
      rw [String.intercalate_singleton, this, wordsAux_nil reversed]
      simp
    | cons w' ws =>
      rw [String.intercalate_cons_cons, String.append_assoc, String.toList_append,
        wordsAux_append plain, List.append_nil, String.toList_append,
        show " ".toList = [' '] from rfl, List.singleton_append, wordsAux_space _ reversed,
        others]
      simp

end ScriptLang.Text
