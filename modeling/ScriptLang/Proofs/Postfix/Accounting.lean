import ScriptLang.Proofs.Postfix.Conversion

/-!
No word is lost or doubled in a conversion.

The conversion is written out once more as loops over what waits, with operations that may fault: a
word cannot be taken from an empty stack, and only operators have a rank. On every row of words,
also a malformed one, the loops end without a fault, nothing waits at the end, and what they placed
is the postfix notation (`convert_eq`). What has been placed and what waits after some words account
for these words (`Accounts`): operands in order, each operator once, no closing parenthesis, and as
many opening ones as the words leave open.
-/

namespace ScriptLang.Infix

/-! ### Kinds of words -/

def isOperator (w : String) : Bool := (rank? w).isSome

/-- A word that is neither an operator nor a parenthesis. -/
def isOperand (w : String) : Bool := !isOperator w && w != "(" && w != ")"

theorem isOperator_of_rank? {w : String} {r : Nat} (found : rank? w = some r) :
    isOperator w = true := by
  rw [isOperator, found]
  rfl

theorem rank?_of_isOperator {w : String} (h : isOperator w = true) : ∃ r, rank? w = some r :=
  Option.isSome_iff_exists.mp h

theorem ne_open_of_isOperator {w : String} (h : isOperator w = true) : w ≠ "(" := by
  rintro rfl
  cases h

theorem ne_close_of_isOperator {w : String} (h : isOperator w = true) : w ≠ ")" := by
  rintro rfl
  cases h

theorem isOperand_of_isOperator {w : String} (h : isOperator w = true) : isOperand w = false := by
  simp [isOperand, h]

/-- The open parentheses after one more word, by their places, last first. A closing parenthesis
closes the latest. -/
def openAfter (places : List Nat) (word : String × Nat) : List Nat :=
  if word.1 == "(" then word.2 :: places
  else if word.1 == ")" then places.tail
  else places

/-- The places of the opening parentheses that are left open. -/
def unclosed (words : List String) : List Nat :=
  words.zipIdx.foldl openAfter []

theorem unclosed_append (words : List String) (w : String) :
    unclosed (words ++ [w]) = openAfter (unclosed words) (w, words.length) := by
  simp [unclosed, List.zipIdx_append]

example : unclosed ["(", "1", ")", ")", "(", "(", "+", ")"] = [4] := by decide

namespace Conversion

/-! ### The loops -/

/-- Takes the word that waits last. -/
def take (c : Conversion) : Except Fault (String × Conversion) :=
  match c.waiting with
  | [] => .error (.index .pop)
  | op :: waiting => .ok (op, { c with waiting })

/-- The word that waits last. -/
def last (c : Conversion) : Except Fault String :=
  match c.waiting with
  | [] => .error (.index .list)
  | op :: _ => .ok op

/-- The rank of an operator. -/
def rankOf (word : String) : Except Fault Nat :=
  match rank? word with
  | some rank => .ok rank
  | none => .error (.key (Text.quoted word))

/-- Places a word. -/
def place (c : Conversion) (word : String) : Conversion := { c with placed := word :: c.placed }

/-- Lets a word wait. -/
def await (c : Conversion) (word : String) : Conversion := { c with waiting := word :: c.waiting }

theorem length_of_take {c c' : Conversion} {op : String} (h : c.take = .ok (op, c')) :
    (c'.place op).waiting.length < c.waiting.length := by
  unfold take at h
  split at h
  · cases h
  · rename_i waiting
    cases h
    simp [place, waiting]

/-- Takes and places words while there are any. A round may stop before it takes a word, and the
loop ends with a word that is dropped. -/
def unload (stops : Conversion → Except Fault Bool) (drops : String → Bool) (c : Conversion) :
    Except Fault Conversion :=
  if c.waiting.isEmpty then .ok c
  else
    match stops c with
    | .error f => .error f
    | .ok true => .ok c
    | .ok false =>
      match h : c.take with
      | .error f => .error f
      | .ok (op, c') =>
        have := length_of_take h
        if drops op then .ok c' else unload stops drops (c'.place op)
termination_by c.waiting.length

/-- The word that waits last stays there when an operator is read. -/
def stays (word : String) (c : Conversion) : Except Fault Bool := do
  let op ← c.last
  if op == "(" then pure true
  else
    let rank ← rankOf word
    let r ← rankOf op
    pure (decide (r < rank) || (nestsRight word && rank == r))

/-- The loop at a closing parenthesis. -/
def closing : Conversion → Except Fault Conversion := unload (fun _ => .ok false) (· == "(")

/-- The loop at an operator. -/
def yielding (word : String) : Conversion → Except Fault Conversion :=
  unload (stays word) fun _ => false

/-- The loop at the end. -/
def draining : Conversion → Except Fault Conversion := unload (fun _ => .ok false) fun _ => false

/-- Reads a word by the loops. -/
def reading (c : Conversion) (word : String) : Except Fault Conversion :=
  if word == "(" then .ok (c.await word)
  else if word == ")" then c.closing
  else if isOperator word then (c.yielding word).map (·.await word)
  else .ok (c.place word)

/-- Converts a row of words by the loops. -/
def convert (words : List String) : Except Fault Conversion := do
  let c ← words.foldlM reading .empty
  c.draining

variable {stops : Conversion → Except Fault Bool} {drops : String → Bool} {op word : String}
  {placed waiting : List String}

/-! ### Rounds of a loop -/

theorem unload_nil : unload stops drops ⟨placed, []⟩ = .ok ⟨placed, []⟩ := by
  rw [unload]
  rfl

theorem unload_stops (h : stops ⟨placed, op :: waiting⟩ = .ok true) :
    unload stops drops ⟨placed, op :: waiting⟩ = .ok ⟨placed, op :: waiting⟩ := by
  rw [unload, h]
  rfl

theorem unload_drops (h : stops ⟨placed, op :: waiting⟩ = .ok false) (dropped : drops op = true) :
    unload stops drops ⟨placed, op :: waiting⟩ = .ok ⟨placed, waiting⟩ := by
  rw [unload, h]
  simp [take, dropped]

theorem unload_places (h : stops ⟨placed, op :: waiting⟩ = .ok false) (kept : drops op = false) :
    unload stops drops ⟨placed, op :: waiting⟩ = unload stops drops ⟨op :: placed, waiting⟩ := by
  rw [unload, h]
  simp [take, place, kept]

theorem closing_eq (placed waiting : List String) :
    closing ⟨placed, waiting⟩ = .ok (close placed waiting) := by
  induction waiting generalizing placed with
  | nil => exact unload_nil
  | cons op waiting ih =>
    rw [close]
    by_cases opening : op = "("
    · rw [if_pos (by simpa using opening)]
      exact unload_drops rfl (by simpa using opening)
    · rw [if_neg (by simpa using opening), closing, unload_places rfl (by simpa using opening)]
      exact ih (op :: placed)

theorem draining_eq (placed waiting : List String) :
    draining ⟨placed, waiting⟩ = .ok ⟨waiting.reverse ++ placed, []⟩ := by
  induction waiting generalizing placed with
  | nil => exact unload_nil
  | cons op waiting ih =>
    rw [List.reverse_cons, List.append_assoc]
    exact (unload_places rfl rfl).trans (ih (op :: placed))

/-- Only operators and opening parentheses wait, so every rank that is asked for exists. -/
def Ranked (waiting : List String) : Prop :=
  ∀ op ∈ waiting, op = "(" ∨ isOperator op = true

theorem stays_eq {rank : Nat} (found : rank? word = some rank)
    (ranked : op = "(" ∨ isOperator op = true) (placed waiting : List String) :
    stays word ⟨placed, op :: waiting⟩ = .ok (!yields word rank op) := by
  rcases ranked with rfl | operator
  · rfl
  · obtain ⟨r, foundOp⟩ := rank?_of_isOperator operator
    have notOpen := ne_open_of_isOperator operator
    have rankWord : rankOf word = .ok rank := by rw [rankOf, found]
    have rankOp : rankOf op = .ok r := by rw [rankOf, foundOp]
    simp [stays, last, yields, notOpen, rankWord, rankOp, foundOp, bind, Except.bind, pure,
      Except.pure]

theorem yielding_eq {rank : Nat} (found : rank? word = some rank) (ranked : Ranked waiting)
    (placed : List String) :
    (yielding word ⟨placed, waiting⟩).map (·.await word) =
      .ok (operator word rank placed waiting) := by
  induction waiting generalizing placed with
  | nil =>
    rw [yielding, unload_nil]
    rfl
  | cons op waiting ih =>
    obtain ⟨first, others⟩ := List.forall_mem_cons.mp ranked
    have test := stays_eq found first placed waiting
    rw [operator]
    cases yielded : yields word rank op with
    | true =>
      rw [yielded] at test
      rw [yielding, unload_places test rfl]
      exact ih others (op :: placed)
    | false =>
      rw [yielded] at test
      rw [yielding, unload_stops test]
      rfl

theorem reading_eq {c : Conversion} (ranked : Ranked c.waiting) (word : String) :
    c.reading word = .ok (c.read word) := by
  unfold reading Conversion.read
  split
  · rfl
  · split
    · exact closing_eq c.placed c.waiting
    · cases found : rank? word with
      | some rank =>
        rw [if_pos (isOperator_of_rank? found)]
        exact yielding_eq found ranked c.placed
      | none =>
        rw [if_neg (by simp [isOperator, found])]
        rfl

/-! ### What a word moves -/

/-- A closing parenthesis places all that waits down to an opening one, and drops that. -/
theorem close_eq (placed waiting : List String) :
    close placed waiting = ⟨(waiting.takeWhile (· != "(")).reverse ++ placed,
      (waiting.dropWhile (· != "(")).tail⟩ := by
  induction waiting generalizing placed with
  | nil => rfl
  | cons op waiting ih =>
    by_cases opening : op = "("
    · simp [close, opening]
    · simp [close, opening, ih]

/-- An operator places what yields to it, and waits. -/
theorem operator_eq (word : String) (rank : Nat) (placed waiting : List String) :
    operator word rank placed waiting =
      ⟨(waiting.takeWhile (yields word rank)).reverse ++ placed,
        word :: waiting.dropWhile (yields word rank)⟩ := by
  induction waiting generalizing placed with
  | nil => rfl
  | cons op waiting ih =>
    cases yielded : yields word rank op with
    | true => simp [operator, yielded, ih]
    | false => simp [operator, yielded]

theorem ne_open_of_yields {rank : Nat} (h : yields word rank op = true) : op ≠ "(" := by
  rintro rfl
  cases h

end Conversion

/-! ### The account -/

open Conversion

/-- What has been placed and what waits, after some words have been read. -/
structure Accounts (words : List String) (c : Conversion) : Prop where
  ranked : Ranked c.waiting
  plain : ∀ w ∈ c.placed, w ≠ "(" ∧ w ≠ ")"
  operands : c.placed.reverse.filter isOperand = words.filter isOperand
  operators : ((c.placed.reverse ++ c.waiting).filter isOperator).Perm (words.filter isOperator)
  opened : c.waiting.count "(" = (unclosed words).length

variable {words placed moved rest : List String} {c : Conversion} {w : String}

theorem accounts_empty : Accounts [] .empty := by
  refine ⟨?_, ?_, rfl, .refl _, rfl⟩
  · intro op mem
    cases mem
  · intro w mem
    cases mem

/-- Operators that have waited may be placed. -/
theorem Accounts.move (h : Accounts words ⟨placed, moved ++ rest⟩)
    (operators : ∀ op ∈ moved, op ≠ "(") : Accounts words ⟨moved.reverse ++ placed, rest⟩ := by
  have ranked : ∀ op ∈ moved, isOperator op = true := by
    intro op mem
    exact (h.ranked op (List.mem_append_left _ mem)).resolve_left (operators op mem)
  constructor
  · intro op mem
    exact h.ranked op (List.mem_append_right _ mem)
  · intro w mem
    rcases List.mem_append.mp mem with mem | mem
    · have operator := ranked w (List.mem_reverse.mp mem)
      exact ⟨ne_open_of_isOperator operator, ne_close_of_isOperator operator⟩
    · exact h.plain w mem
  · have none : moved.filter isOperand = [] := by
      refine List.filter_eq_nil_iff.mpr fun op mem => ?_
      simp [isOperand_of_isOperator (ranked op mem)]
    simpa [none] using h.operands
  · simpa using h.operators
  · have none : moved.count "(" = 0 := by
      refine List.count_eq_zero.mpr fun mem => ?_
      exact operators "(" mem rfl
    simpa [List.count_append, none] using h.opened

theorem Accounts.opening (h : Accounts words c) : Accounts (words ++ ["("]) (c.await "(") := by
  constructor
  · intro op mem
    rcases List.mem_cons.mp mem with rfl | mem
    · exact .inl rfl
    · exact h.ranked op mem
  · exact h.plain
  · simpa [await, isOperand] using h.operands
  · have none : isOperator "(" = false := rfl
    simpa [await, none] using h.operators
  · simpa [await, unclosed_append, openAfter] using h.opened

/-- What is closed is the opening parenthesis that waits last, if one waits at all. -/
theorem Accounts.closing (h : Accounts words ⟨placed, rest⟩)
    (last : ∀ op ∈ rest.head?, op = "(") : Accounts (words ++ [")"]) ⟨placed, rest.tail⟩ := by
  have none : isOperator ")" = false ∧ isOperator "(" = false := ⟨rfl, rfl⟩
  constructor
  · intro op mem
    exact h.ranked op (List.mem_of_mem_tail mem)
  · exact h.plain
  · simpa [isOperand] using h.operands
  · have same : rest.tail.filter isOperator = rest.filter isOperator := by
      cases rest with
      | nil => rfl
      | cons op rest =>
        cases last op rfl
        rw [List.tail_cons, List.filter_cons_of_neg (by simp [none.2])]
    simpa [none.1, same] using h.operators
  · have opened := h.opened
    have closed : unclosed (words ++ [")"]) = (unclosed words).tail := unclosed_append words ")"
    rw [closed, List.length_tail, ← opened]
    cases rest with
    | nil => rfl
    | cons op rest =>
      cases last op rfl
      simp

theorem Accounts.operator (h : Accounts words c) (operator : isOperator w = true) :
    Accounts (words ++ [w]) (c.await w) := by
  have notOpen := ne_open_of_isOperator operator
  have notClose := ne_close_of_isOperator operator
  constructor
  · intro op mem
    rcases List.mem_cons.mp mem with rfl | mem
    · exact .inr operator
    · exact h.ranked op mem
  · exact h.plain
  · simpa [await, isOperand_of_isOperator operator] using h.operands
  · calc List.Perm ((c.placed.reverse ++ w :: c.waiting).filter isOperator)
          (w :: (c.placed.reverse ++ c.waiting).filter isOperator) := by
          simp [operator]
      List.Perm _ (w :: words.filter isOperator) := h.operators.cons w
      List.Perm _ ((words ++ [w]).filter isOperator) := by
          simpa [operator] using (List.perm_append_singleton w _).symm
  · simpa [await, unclosed_append, openAfter, notOpen, notClose] using h.opened

theorem Accounts.operand (h : Accounts words c) (operand : isOperand w = true) :
    Accounts (words ++ [w]) (c.place w) := by
  have parts := operand
  simp only [isOperand, Bool.and_eq_true, Bool.not_eq_true', bne_iff_ne] at parts
  obtain ⟨⟨operator, notOpen⟩, notClose⟩ := parts
  constructor
  · exact h.ranked
  · intro w' mem
    rcases List.mem_cons.mp mem with rfl | mem
    · exact ⟨notOpen, notClose⟩
    · exact h.plain w' mem
  · simpa [place, operand] using h.operands
  · simpa [place, operator] using h.operators
  · simpa [place, unclosed_append, openAfter, notOpen, notClose] using h.opened

theorem Accounts.read_close (h : Accounts words c) :
    Accounts (words ++ [")"]) (close c.placed c.waiting) := by
  rw [close_eq]
  refine (Accounts.move ?_ ?_).closing ?_
  · rwa [List.takeWhile_append_dropWhile]
  · intro op mem
    simpa using List.all_eq_true.mp List.all_takeWhile op mem
  · intro op mem
    have first := List.head?_dropWhile_not (· != "(") c.waiting
    rw [Option.mem_def.mp mem] at first
    simpa using first

theorem Accounts.read_operator {rank : Nat} (h : Accounts words c) (found : rank? w = some rank) :
    Accounts (words ++ [w]) (Conversion.operator w rank c.placed c.waiting) := by
  have moved : Accounts words ⟨(c.waiting.takeWhile (yields w rank)).reverse ++ c.placed,
      c.waiting.dropWhile (yields w rank)⟩ := by
    refine Accounts.move ?_ ?_
    · rwa [List.takeWhile_append_dropWhile]
    · intro op mem
      exact ne_open_of_yields (List.all_eq_true.mp List.all_takeWhile op mem)
  rw [operator_eq]
  exact moved.operator (isOperator_of_rank? found)

/-- One word more is accounted for once it has been read. -/
theorem Accounts.read (h : Accounts words c) (w : String) :
    Accounts (words ++ [w]) (c.read w) := by
  by_cases opening : w = "("
  · subst opening
    exact h.opening
  by_cases closing : w = ")"
  · subst closing
    exact h.read_close
  cases found : rank? w with
  | some rank =>
    rw [Infix.read_operator found]
    exact h.read_operator found
  | none =>
    have placed : c.read w = c.place w := by
      simp [Conversion.read, place, opening, closing, found]
    rw [placed]
    exact h.operand (by simp [isOperand, isOperator, opening, closing, found])

/-- All words are accounted for after they have been read, and the loops read them too. -/
theorem Accounts.run (h : Accounts words c) (more : List String) :
    Accounts (words ++ more) (more.foldl Conversion.read c) ∧
      more.foldlM reading c = .ok (more.foldl Conversion.read c) := by
  induction more generalizing words c with
  | nil => exact ⟨by simpa using h, rfl⟩
  | cons w more ih =>
    -- That the loops ask only for ranks that exist is part of the account of the words so far.
    obtain ⟨accounts, loops⟩ := ih (h.read w)
    constructor
    · simpa using accounts
    · rw [List.foldlM_cons, reading_eq h.ranked]
      exact loops

theorem accounts_foldl (words : List String) :
    Accounts words (words.foldl Conversion.read .empty) :=
  (accounts_empty.run words).1

theorem convert_eq (words : List String) :
    convert words = .ok ⟨(toPostfix words).reverse, []⟩ := by
  rw [convert, (accounts_empty.run words).2]
  refine (draining_eq _ _).trans ?_
  simp [toPostfix, finish]

/-! ### At the end -/

theorem Accounts.operands_finish (h : Accounts words c) :
    c.finish.filter isOperand = words.filter isOperand := by
  have none : c.waiting.filter isOperand = [] := by
    refine List.filter_eq_nil_iff.mpr fun op mem => ?_
    rcases h.ranked op mem with rfl | operator
    · decide
    · simp [isOperand_of_isOperator operator]
  rw [finish, List.filter_append, none, List.append_nil]
  exact h.operands

theorem Accounts.close_notMem_finish (h : Accounts words c) : ")" ∉ c.finish := by
  intro mem
  rcases List.mem_append.mp mem with mem | mem
  · exact (h.plain ")" (List.mem_reverse.mp mem)).2 rfl
  · rcases h.ranked ")" mem with opening | operator
    · exact absurd opening (by decide)
    · exact ne_close_of_isOperator operator rfl

theorem Accounts.count_open_finish (h : Accounts words c) :
    c.finish.count "(" = (unclosed words).length := by
  have none : c.placed.reverse.count "(" = 0 := by
    refine List.count_eq_zero.mpr fun mem => ?_
    exact (h.plain "(" (List.mem_reverse.mp mem)).1 rfl
  rw [finish, List.count_append, none, Nat.zero_add]
  exact h.opened

/-- Whatever the words are, their conversion ends without a fault and with nothing waiting. Its
result has the operands in their order, each operator once, no closing parenthesis, and an opening
one for each that the words leave open. -/
theorem toPostfix_accounts (words : List String) :
    convert words = .ok ⟨(toPostfix words).reverse, []⟩ ∧
      (toPostfix words).filter isOperand = words.filter isOperand ∧
      ((toPostfix words).filter isOperator).Perm (words.filter isOperator) ∧
      ")" ∉ toPostfix words ∧
      (toPostfix words).count "(" = (unclosed words).length := by
  have accounts := accounts_foldl words
  exact ⟨convert_eq words, accounts.operands_finish, accounts.operators,
    accounts.close_notMem_finish, accounts.count_open_finish⟩

example : toPostfix [")", "(", "1", "^", "(", "+", "2", ")", "-", "("] =
    ["1", "2", "+", "^", "(", "-", "("] := by
  decide

end ScriptLang.Infix
