import ScriptLang.Number.Numeral
import ScriptLang.Proofs.Text.Words

/-!
Numerals that can be read.

A run of decimal digits is a whole number unless it is too long (`readWhole_of_decimal`); two runs
with a point between them are a real number (`readReal_of_decimal`). The digits may be of any
script.
-/

namespace ScriptLang.Number

/-- A decimal digit of any script. -/
def IsDecimal (c : Char) : Prop := ∃ d, Text.decimalValue? c = some d

/-- What holds of the ten digits holds of every ASCII digit. -/
theorem forall_digit {p : Char → Prop} (h : ∀ n < 10, p (Char.ofNat (n + 48))) {c : Char}
    (digit : c.isDigit = true) : p c := by
  have range : 48 ≤ c.toNat ∧ c.toNat ≤ 57 := by
    simpa [Char.isDigit, UInt32.le_iff_toNat_le] using digit
  have found := h (c.toNat - 48) (by omega)
  rwa [Nat.sub_add_cancel range.1, Char.ofNat_toNat] at found

/-- A decimal digit of any script counts as an ASCII digit. -/
theorem isDigit_plainChar {c : Char} (h : IsDecimal c) : (plainChar c).isDigit = true := by
  obtain ⟨d, value⟩ := h
  rw [Text.decimalValue?] at value
  rw [plainChar]
  split
  · rename_i ascii
    rw [if_pos ascii] at value
    split at value
    · assumption
    · cases value
  · rename_i large
    rw [if_neg large] at value
    obtain ⟨run, found, rfl⟩ := Option.map_eq_some_iff.mp value
    have eq : Text.decimalValue? c = some ((c.toNat - run.1) % 10) := by
      rw [Text.decimalValue?, if_neg large, value]
    rw [Text.decimalRanges_apart.isBlank_eq_false large found, eq]
    have all : ∀ d < 10, (Char.ofNat (d + '0'.toNat)).isDigit = true := by decide
    exact all _ (Nat.mod_lt _ (by decide))

theorem isDigit_of_mem_plain {cs : List Char} (h : ∀ c ∈ cs, IsDecimal c) :
    ∀ c ∈ cs.map plainChar, c.isDigit = true := by
  intro c mem
  obtain ⟨c', mem', rfl⟩ := List.mem_map.mp mem
  exact isDigit_plainChar (h c' mem')

/-! ### Signs, underscores and white space -/

/-- The characters of plain digits are no signs, no white space and no underscores. -/
theorem digit_plain {c : Char} (digit : c.isDigit = true) :
    c ≠ '-' ∧ c ≠ '+' ∧ c ≠ '_' ∧ isPadding c = false :=
  forall_digit (p := fun c => c ≠ '-' ∧ c ≠ '+' ∧ c ≠ '_' ∧ isPadding c = false) (by decide) digit

theorem splitSign_digit {c : Char} {cs : List Char} (digit : c.isDigit = true) :
    splitSign (c :: cs) = (false, c :: cs) := by
  obtain ⟨noMinus, noPlus, -⟩ := digit_plain digit
  exact splitSign.eq_3 _ (fun _ eq => noMinus (List.cons.inj eq).1)
    (fun _ eq => noPlus (List.cons.inj eq).1)

theorem dropUnderscores_plain {before : Char} {cs : List Char} (first : before ≠ '_')
    (h : ∀ c ∈ cs, c ≠ '_') : dropUnderscores before cs = some cs := by
  induction cs generalizing before with
  | nil => simp [dropUnderscores, first]
  | cons c cs ih =>
    obtain ⟨plain, others⟩ := List.forall_mem_cons.mp h
    rw [dropUnderscores.eq_3 _ _ _ plain, ih plain others]
    simp [first]

theorem dropWhile_padding {cs : List Char} (h : ∀ c ∈ cs, isPadding c = false) :
    cs.dropWhile isPadding = cs := by
  cases cs with
  | nil => rfl
  | cons c cs => rw [List.dropWhile_cons_of_neg (by simp [h c List.mem_cons_self])]

theorem unpad_of_plain {cs : List Char} (h : ∀ c ∈ cs, isPadding c = false) : unpad cs = cs := by
  rw [unpad, dropWhile_padding h, dropWhile_padding (by simpa using h), List.reverse_reverse]

/-! ### Whole numbers -/

/-- A whole number is read if its digits are decimal and not too many. -/
theorem readWhole_of_decimal {s : String} (nonempty : s.toList ≠ [])
    (decimal : ∀ c ∈ s.toList, IsDecimal c) (few : s.toList.length ≤ maxDigits) :
    ∃ n, readWhole s = .ok n := by
  have length : (s.toList.map plainChar).length = s.toList.length := List.length_map ..
  have digits := isDigit_of_mem_plain decimal
  have some : s.toList.map plainChar ≠ [] := by simpa using nonempty
  rw [readWhole]
  generalize s.toList.map plainChar = cs at length digits some
  obtain ⟨d, ds, rfl⟩ := List.exists_cons_of_ne_nil some
  have plain : ∀ c ∈ d :: ds, c ≠ '_' := fun c mem => (digit_plain (digits c mem)).2.2.1
  have run : ∀ c ∈ d :: ds, isRunChar c = true := fun c mem => by simp [isRunChar, digits c mem]
  have taken : (d :: ds).takeWhile isRunChar = d :: ds := by
    rw [← List.append_nil (d :: ds), List.takeWhile_append_of_pos run, List.takeWhile_nil]
  have dropped : (d :: ds).dropWhile isRunChar = [] := by
    rw [← List.append_nil (d :: ds), List.dropWhile_append_of_pos run, List.dropWhile_nil]
  rw [dropWhile_padding fun c mem => (digit_plain (digits c mem)).2.2.2,
    splitSign_digit (digits d List.mem_cons_self)]
  simp only [taken, dropped, dropUnderscores_plain (show ' ' ≠ '_' by decide) plain]
  rw [if_neg (by omega), if_neg (by simp)]
  exact ⟨_, rfl⟩

/-! ### Real numbers -/

/-- Digits, a point and digits are a real number. -/
theorem readPlain?_of_digits {ws fs : List Char} (nonempty : ws ≠ [])
    (whole : ∀ c ∈ ws, c.isDigit = true) (fraction : ∀ c ∈ fs, c.isDigit = true) :
    ∃ x, readPlain? (ws ++ '.' :: fs) = some x := by
  obtain ⟨d, ds, rfl⟩ := List.exists_cons_of_ne_nil nonempty
  have digit := whole d List.mem_cons_self
  obtain ⟨noInf, noNan⟩ : d.toLower ≠ 'i' ∧ d.toLower ≠ 'n' :=
    forall_digit (p := fun d => d.toLower ≠ 'i' ∧ d.toLower ≠ 'n') (by decide) digit
  have unsigned : splitSign (d :: ds ++ '.' :: fs) = (false, d :: ds ++ '.' :: fs) :=
    splitSign_digit digit
  have word {c : Char} (other : d.toLower ≠ c) (cs : List Char) :
      String.ofList ((d :: ds ++ '.' :: fs).map Char.toLower) ≠ String.ofList (c :: cs) := by
    intro same
    have chars := congrArg String.toList same
    simp [other] at chars
  have magnitude : ∃ x, readMagnitude? false (d :: ds ++ '.' :: fs) = some x := by
    have taken : (d :: ds ++ '.' :: fs).takeWhile Char.isDigit = d :: ds := by
      rw [List.takeWhile_append_of_pos whole, List.takeWhile_cons_of_neg (by decide),
        List.append_nil]
    have dropped : (d :: ds ++ '.' :: fs).dropWhile Char.isDigit = '.' :: fs := by
      rw [List.dropWhile_append_of_pos whole, List.dropWhile_cons_of_neg (by decide)]
    have rest : fs.dropWhile Char.isDigit = [] := by
      rw [← List.append_nil fs, List.dropWhile_append_of_pos fraction, List.dropWhile_nil]
    rw [readMagnitude?, taken, dropped]
    simp [rest, readExponent?]
  obtain ⟨x, read⟩ := magnitude
  have inf := word noInf ['n', 'f']
  have infinity := word noInf ['n', 'f', 'i', 'n', 'i', 't', 'y']
  have nan := word noNan ['a', 'n']
  refine ⟨x, ?_⟩
  rw [readPlain?, unsigned]
  dsimp only
  rw [if_neg, if_neg, read]
  · rw [beq_iff_eq]
    exact nan
  · rw [Bool.or_eq_true, beq_iff_eq, beq_iff_eq, not_or]
    exact ⟨inf, infinity⟩

/-- Decimal digits, a point and decimal digits are a real number. -/
theorem readReal_of_decimal {s : String} {ds es : List Char} (chars : s.toList = ds ++ '.' :: es)
    (nonempty : ds ≠ []) (whole : ∀ c ∈ ds, IsDecimal c) (fraction : ∀ c ∈ es, IsDecimal c) :
    ∃ x, readReal s = .ok x := by
  have digits := isDigit_of_mem_plain whole
  have digits' := isDigit_of_mem_plain fraction
  have point : plainChar '.' = '.' := rfl
  have mapped : s.toList.map plainChar = ds.map plainChar ++ '.' :: es.map plainChar := by
    rw [chars, List.map_append, List.map_cons, point]
  have plain : ∀ c ∈ s.toList.map plainChar, c ≠ '_' ∧ isPadding c = false := by
    intro c mem
    rw [mapped, List.mem_append, List.mem_cons] at mem
    rcases mem with mem | rfl | mem
    · exact (digit_plain (digits c mem)).2.2
    · decide
    · exact (digit_plain (digits' c mem)).2.2
  obtain ⟨x, read⟩ := readPlain?_of_digits (by simpa using nonempty) digits digits'
  refine ⟨x, ?_⟩
  rw [readReal, unpad_of_plain fun c mem => (plain c mem).2,
    dropUnderscores_plain (by decide) fun c mem => (plain c mem).1, mapped, Option.bind_some, read]

end ScriptLang.Number
