import ScriptLang.Postfix

/-!
Conversion to postfix notation, phrase by phrase.

`Converts rank ws out`: the words `ws` are a phrase whose operators outside parentheses have at
least the given rank, and `out` is its postfix notation. Reading the phrase places some words of
`out` and leaves the others, which are operators, waiting above what waited before. Phrases are put
together by the lemmas below, one for each way in which operators nest.
-/

namespace ScriptLang.Infix

open Conversion

/-- What waits last stays there when an operator of at least the given rank is read. -/
def Keeps (rank : Nat) (waiting : List String) : Prop :=
  ∀ op ∈ waiting.head?, ∀ word r, rank? word = some r → rank ≤ r → yields word r op = false

/-- Reading a phrase turns it into its postfix notation. -/
def Converts (rank : Nat) (ws out : List String) : Prop :=
  ∀ placed waiting, Keeps rank waiting → ∃ placed' pending,
    ws.foldl Conversion.read ⟨placed, waiting⟩ = ⟨placed', pending ++ waiting⟩ ∧
    (∀ op ∈ pending, ∃ r, rank? op = some r ∧ rank ≤ r) ∧
    placed'.reverse ++ pending = placed.reverse ++ out

variable {rank rank' : Nat} {op : String} {ws ws' out out' : List String}

/-! ### What waits -/

theorem keeps_nil : Keeps rank [] := by
  simp [Keeps]

theorem keeps_open (waiting : List String) : Keeps rank ("(" :: waiting) := by
  simp [Keeps, yields]

theorem Keeps.mono {waiting : List String} (le : rank ≤ rank') (h : Keeps rank waiting) :
    Keeps rank' waiting :=
  fun op mem word r found le' => h op mem word r found (Nat.le_trans le le')

/-- Operators that bind tighter leave an operator waiting. -/
theorem keeps_of_lt {r : Nat} (waiting : List String) (found : rank? op = some r)
    (lt : r < rank) : Keeps rank (op :: waiting) := by
  intro op' mem word r' _ le
  cases mem
  have lt' : r < r' := Nat.lt_of_lt_of_le lt le
  unfold yields
  split
  · rfl
  · simp [found, lt']

theorem word_of_rank? {r : Nat} {word : String} (nests : nestsRight op = true)
    (found : rank? op = some r) (found' : rank? word = some rank) (le : r ≤ rank) :
    word = op ∧ rank = r := by
  have eq : op = "^" := by simpa [nestsRight] using nests
  subst eq
  cases found
  unfold rank? at found'
  split at found' <;> cases found' <;> simp_all

/-- An operator that nests to the right stays waiting for another. -/
theorem keeps_of_nestsRight (waiting : List String) (nests : nestsRight op = true)
    (found : rank? op = some rank) : Keeps rank (op :: waiting) := by
  intro op' mem word r found' le
  cases mem
  obtain ⟨rfl, rfl⟩ := word_of_rank? nests found found' le
  unfold yields
  split
  · rfl
  · simp [found, nests]

/-! ### Single words -/

theorem ne_open_of_rank? {r : Nat} (found : rank? op = some r) : op ≠ "(" := by
  rintro rfl
  cases found

theorem read_operator {r : Nat} (found : rank? op = some r) (c : Conversion) :
    c.read op = operator op r c.placed c.waiting := by
  have notClose : op ≠ ")" := by
    rintro rfl
    cases found
  simp [Conversion.read, ne_open_of_rank? found, notClose, found]

/-- An operator places what yields to it and then waits. -/
theorem operator_pending {r : Nat} {pending waiting : List String}
    (yield : ∀ p ∈ pending, yields op r p = true)
    (stay : ∀ p ∈ waiting.head?, yields op r p = false) (placed : List String) :
    operator op r placed (pending ++ waiting) = ⟨pending.reverse ++ placed, op :: waiting⟩ := by
  induction pending generalizing placed with
  | nil =>
    cases waiting with
    | nil => rfl
    | cons p waiting =>
      have stays := stay p rfl
      simp [operator, stays]
  | cons p pending ih =>
    obtain ⟨first, others⟩ := List.forall_mem_cons.mp yield
    rw [List.cons_append, operator, if_pos first, ih others]
    simp

/-- A closing parenthesis places what waits since the opening one. -/
theorem close_pending {pending : List String} (plain : ∀ p ∈ pending, p ≠ "(")
    (placed waiting : List String) :
    close placed (pending ++ "(" :: waiting) = ⟨pending.reverse ++ placed, waiting⟩ := by
  induction pending generalizing placed with
  | nil => rfl
  | cons p pending ih =>
    obtain ⟨first, others⟩ := List.forall_mem_cons.mp plain
    rw [List.cons_append, close, if_neg (by simpa using first), ih others]
    simp

theorem yields_of_lt {r : Nat} {p : String} (found : rank? p = some r) (lt : rank < r) :
    yields op rank p = true := by
  have notLt : ¬ r < rank := by omega
  have ne : rank ≠ r := by omega
  simp [yields, ne_open_of_rank? found, found, notLt, ne]

theorem yields_of_le {r : Nat} {p : String} (found : rank? p = some r) (le : rank ≤ r)
    (nests : nestsRight op = false) : yields op rank p = true := by
  have notLt : ¬ r < rank := by omega
  simp [yields, ne_open_of_rank? found, found, notLt, nests]

/-! ### Phrases -/

/-- A word that is no operator and no parenthesis is placed at once. -/
theorem converts_word {w : String} (plain : rank? w = none) (notOpen : w ≠ "(")
    (notClose : w ≠ ")") : Converts rank [w] [w] := by
  intro placed waiting _
  refine ⟨w :: placed, [], ?_, by simp, by simp⟩
  simp [Conversion.read, plain, notOpen, notClose]

theorem Converts.mono (le : rank ≤ rank') (h : Converts rank' ws out) : Converts rank ws out := by
  intro placed waiting keeps
  obtain ⟨placed', pending, eq, ranks, words⟩ := h placed waiting (keeps.mono le)
  refine ⟨placed', pending, eq, ?_, words⟩
  intro op mem
  obtain ⟨r, found, le'⟩ := ranks op mem
  exact ⟨r, found, Nat.le_trans le le'⟩

theorem Converts.group (h : Converts rank ws out) : Converts rank' ("(" :: ws ++ [")"]) out := by
  intro placed waiting _
  obtain ⟨placed', pending, eq, ranks, words⟩ := h placed ("(" :: waiting) (keeps_open waiting)
  have plain : ∀ p ∈ pending, p ≠ "(" := by
    intro p mem
    obtain ⟨r, found, -⟩ := ranks p mem
    exact ne_open_of_rank? found
  refine ⟨pending.reverse ++ placed', [], ?_, by simp, by simpa using words⟩
  have opened : Conversion.read ⟨placed, waiting⟩ "(" = ⟨placed, "(" :: waiting⟩ := rfl
  have closed : Conversion.read ⟨placed', pending ++ "(" :: waiting⟩ ")" =
      close placed' (pending ++ "(" :: waiting) := rfl
  rw [List.cons_append, List.foldl_cons, opened, List.foldl_append, eq, List.foldl_cons,
    List.foldl_nil, closed, close_pending plain]
  rfl

/-- Two phrases and an operator between them. All that waits of the left phrase yields to the
operator, and the operator stays waiting for the right phrase. -/
theorem Converts.operation {left right : Nat} (found : rank? op = some rank)
    (h : Converts left ws out) (h' : Converts right ws' out') (le : rank ≤ left)
    (le' : rank ≤ right)
    (yield : ∀ p r, rank? p = some r → left ≤ r → yields op rank p = true)
    (stay : ∀ waiting, Keeps right (op :: waiting)) :
    Converts rank (ws ++ op :: ws') (out ++ out' ++ [op]) := by
  intro placed waiting keeps
  obtain ⟨placed₁, pending₁, eq₁, ranks₁, words₁⟩ := h placed waiting (keeps.mono le)
  obtain ⟨placed₂, pending₂, eq₂, ranks₂, words₂⟩ :=
    h' (pending₁.reverse ++ placed₁) (op :: waiting) (stay waiting)
  have yields₁ : ∀ p ∈ pending₁, yields op rank p = true := by
    intro p mem
    obtain ⟨r, foundP, leP⟩ := ranks₁ p mem
    exact yield p r foundP leP
  have stays : ∀ p ∈ waiting.head?, yields op rank p = false :=
    fun p mem => keeps p mem op rank found (Nat.le_refl _)
  refine ⟨placed₂, pending₂ ++ [op], ?_, ?_, ?_⟩
  · rw [List.foldl_append, eq₁, List.foldl_cons, read_operator found,
      operator_pending yields₁ stays, eq₂, List.append_assoc]
    rfl
  · intro p mem
    rcases List.mem_append.mp mem with mem | mem
    · obtain ⟨r, foundP, leP⟩ := ranks₂ p mem
      exact ⟨r, foundP, Nat.le_trans le' leP⟩
    · cases List.mem_singleton.mp mem
      exact ⟨rank, found, Nat.le_refl _⟩
  · calc placed₂.reverse ++ (pending₂ ++ [op])
        = placed₂.reverse ++ pending₂ ++ [op] := (List.append_assoc ..).symm
      _ = (pending₁.reverse ++ placed₁).reverse ++ out' ++ [op] := by rw [words₂]
      _ = placed₁.reverse ++ pending₁ ++ out' ++ [op] := by simp
      _ = placed.reverse ++ out ++ out' ++ [op] := by rw [words₁]
      _ = placed.reverse ++ (out ++ out' ++ [op]) := by simp

theorem Converts.nestedLeft (found : rank? op = some rank) (nests : nestsRight op = false)
    (h : Converts rank ws out) (h' : Converts (rank + 1) ws' out') :
    Converts rank (ws ++ op :: ws') (out ++ out' ++ [op]) :=
  h.operation found h' (Nat.le_refl _) (Nat.le_succ _)
    (fun _ _ foundP leP => yields_of_le foundP leP nests)
    (fun waiting => keeps_of_lt waiting found (Nat.lt_succ_self _))

theorem Converts.nestedRight (found : rank? op = some rank) (nests : nestsRight op = true)
    (h : Converts (rank + 1) ws out) (h' : Converts rank ws' out') :
    Converts rank (ws ++ op :: ws') (out ++ out' ++ [op]) :=
  h.operation found h' (Nat.le_succ _) (Nat.le_refl _)
    (fun _ _ foundP leP => yields_of_lt foundP leP)
    (fun waiting => keeps_of_nestsRight waiting nests found)

/-- A phrase that is all there is has its postfix notation. -/
theorem Converts.toPostfix_eq (h : Converts rank ws out) : toPostfix ws = out := by
  obtain ⟨placed, pending, eq, -, words⟩ := h [] [] keeps_nil
  rw [toPostfix, Conversion.empty, eq, finish, List.append_nil, words]
  rfl

end ScriptLang.Infix
