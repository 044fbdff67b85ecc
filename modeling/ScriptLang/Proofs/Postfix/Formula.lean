import ScriptLang.Eval.Numeric
import ScriptLang.Proofs.Parse.Agreement
import ScriptLang.Proofs.Postfix.Conversion
import ScriptLang.Proofs.Sequence
import ScriptLang.Proofs.Text.Words
import ScriptLang.Proofs.Value.Division
import ScriptLang.Proofs.Value.Faults

/-!
Postfix notation of formulas.

The postfix notation of a formula lists its tree from the leaves up (`Expr.postorder`), and
evaluating it on a stack gives the value of the tree. Both follow the derivation of the formula by
the grammar: what one rule of the grammar puts together, one lemma about conversion and one about
evaluation put together.
-/

namespace ScriptLang

/-- Numbers, parentheses and the operators that numbers have. -/
def Expr.isArithmetic : Expr → Bool
  | .integer .. | .real .. | .group .. => true
  | .binary op _ _ _ => (Numeric.operator? op.kind).isSome
  | _ => false

/-- The nodes of an expression without its parentheses, operands before their operator. Numbers are
listed by the given words in order; the words that are left are returned too. -/
def Expr.postorder : Expr → List String → List String × List String
  | .integer .., ws | .real .., ws => (ws.take 1, ws.drop 1)
  | .group inner _, ws => inner.postorder ws
  | .binary op left right _, ws =>
    let l := left.postorder ws
    let r := right.postorder l.2
    (l.1 ++ r.1 ++ [op.lexeme], r.2)
  | _, ws => ([], ws)

/-- The numerals among some tokens. -/
def numerals (ts : List Token) : List String :=
  (ts.filter fun t => t.kind == .integer || t.kind == .float).map Token.lexeme

/-- A numeral of a whole number reads as the same number when it is read as a real one. -/
def Token.Faithful (t : Token) : Prop :=
  t.kind = .integer → ∀ n : Int, Number.readWhole t.lexeme = .ok n →
    ∃ x, Number.ofInt? n = some x ∧ Number.readReal t.lexeme = .ok x

/-! ### Words of tokens -/

/-- An operator of numbers, its word and its operation. -/
theorem operator_cases {t : Token} {o : BinaryOp} (spelled : t.Spelled)
    (h : Numeric.operator? t.kind = some o) :
    (t.kind, t.lexeme, o) ∈ [(.plus, "+", .add), (.minus, "-", .sub), (.star, "*", .mul),
      (.slash, "/", .div), (.caret, "^", BinaryOp.pow)] := by
  have word : ∀ d, t.kind.sign? = some d → t.lexeme = String.singleton d :=
    fun d sign => spelled.lexeme_eq sign
  generalize t.kind = k at h word
  unfold Numeric.operator? at h
  split at h <;> cases h <;> rw [word _ rfl] <;> decide

/-- A numeral is no operator and no parenthesis. -/
theorem numeral_plain {t : Token} (spelled : t.Spelled)
    (kind : t.kind = .integer ∨ t.kind = .float) :
    Infix.rank? t.lexeme = none ∧ t.lexeme ≠ "(" ∧ t.lexeme ≠ ")" := by
  obtain ⟨d, ds, chars, digit, -⟩ := spelled.numeral_chars kind
  have other : ∀ c cs, Text.isDigit c = false → t.lexeme ≠ String.ofList (c :: cs) := by
    rintro c cs notDigit eq
    rw [eq, String.toList_ofList] at chars
    cases chars
    rw [notDigit] at digit
    cases digit
  refine ⟨?_, other '(' [] rfl, other ')' [] rfl⟩
  unfold Infix.rank?
  split
  · exact absurd ‹_› (other '^' [] rfl)
  · exact absurd ‹_› (other '*' [] rfl)
  · exact absurd ‹_› (other '/' [] rfl)
  · exact absurd ‹_› (other '+' [] rfl)
  · exact absurd ‹_› (other '-' [] rfl)
  · rfl

theorem isWord_of_formula {t : Token} (spelled : t.Spelled)
    (kind : t.kind ∈ Parse.formulaKinds) : Text.IsWord t.lexeme := by
  by_cases numeral : t.kind = .integer ∨ t.kind = .float
  · obtain ⟨d, ds, chars, -, digits⟩ := spelled.numeral_chars numeral
    refine ⟨by simp [chars], ?_⟩
    intro c mem
    rcases digits c (chars ▸ mem) with digit | rfl
    · exact Text.isBlank_of_isDigit digit
    · rfl
  · obtain ⟨d, sign, plain⟩ : ∃ d, t.kind.sign? = some d ∧ Text.isBlank d = false := by
      generalize t.kind = k at kind numeral
      simp only [Parse.formulaKinds, List.mem_cons, List.not_mem_nil, or_false] at kind
      rcases kind with rfl | rfl | rfl | rfl | rfl | rfl | rfl | rfl | rfl
      · simp at numeral
      · simp at numeral
      all_goals exact ⟨_, rfl, rfl⟩
    rw [spelled.lexeme_eq sign]
    simp [Text.IsWord, plain]

theorem kinds_of_operator {k : Kind} {o : BinaryOp} (h : Numeric.operator? k = some o) :
    k ∈ Parse.formulaKinds ∧ k ≠ .integer ∧ k ≠ .float := by
  unfold Numeric.operator? at h
  split at h <;> cases h <;> decide

/-! ### Evaluation on a stack -/

namespace Postfix

variable {ws us : List String} {w : String} {stack stack' : List Datum}

theorem words_append_of_ok (h : words ws stack = .ok () stack') :
    words (ws ++ us) stack = words us stack' := by
  induction ws generalizing stack with
  | nil =>
    cases h
    rfl
  | cons w ws ih =>
    obtain ⟨_, stack₁, first, rest⟩ :=
      bind_eq_ok.mp (show (word w >>= fun _ => words ws) stack = _ from h)
    exact (bind_of_ok first).trans (ih rest)

theorem words_append_of_error {f : Fault} (h : words ws stack = .error f stack') :
    words (ws ++ us) stack = .error f stack' := by
  induction ws generalizing stack with
  | nil => cases h
  | cons w ws ih =>
    have split : (word w >>= fun _ => words ws) stack = .error f stack' := h
    show (word w >>= fun _ => words (ws ++ us)) stack = .error f stack'
    cases first : word w stack with
    | ok _ stack₁ =>
      rw [bind_of_ok first] at split ⊢
      exact ih split
    | error f' stack₁ =>
      rw [bind_of_error first] at split ⊢
      exact split

theorem words_number {x : Float} (plain : Infix.rank? w = none)
    (read : Number.readReal w = .ok x) (stack : List Datum) :
    words [w] stack = .ok () (.float x :: stack) := by
  have pushed : word w stack = .ok () (.float x :: stack) := by
    unfold word
    rw [plain, read]
    rfl
  exact bind_of_ok pushed

theorem word_operator {r : Nat} (found : Infix.rank? w = some r) (a b : Datum)
    (stack : List Datum) :
    word w (b :: a :: stack) = (lift (apply w a b) >>= push) stack := by
  unfold word
  rw [found]
  rfl

theorem words_operator_of_ok {r : Nat} (found : Infix.rank? w = some r) {a b d : Datum}
    (applied : apply w a b = .ok d) (stack : List Datum) :
    words [w] (b :: a :: stack) = .ok () (d :: stack) := by
  have pushed := word_operator found a b stack
  rw [applied] at pushed
  exact bind_of_ok pushed

theorem words_operator_of_error {r : Nat} (found : Infix.rank? w = some r) {a b : Datum}
    {f : Fault} (applied : apply w a b = .error f) (stack : List Datum) :
    words [w] (b :: a :: stack) = .error f stack := by
  have failed := word_operator found a b stack
  rw [applied] at failed
  exact bind_of_error failed

theorem apply_mild (w : String) (a b : Datum) : Mild (apply w a b) := by
  unfold apply
  split
  · exact Datum.add_mild a b
  · exact Datum.onNumbers_mild (fun x y => (Num.unify_mild x y).map _) a b
  · exact Datum.mul_mild a b
  · exact Datum.onNumbers_mild Num.div_mild a b
  · exact Datum.onNumbers_mild Num.pow_mild a b

theorem evaluate_of_ok {d : Datum} (h : words ws [] = .ok () [d]) :
    evaluate ws [] = .ok d [] :=
  bind_of_ok h

theorem evaluate_of_error {f : Fault} {left : List Datum} (h : words ws [] = .error f left) :
    evaluate ws [] = .error f left :=
  bind_of_error h

end Postfix

/-! ### Values of trees -/

/-- Evaluating words on a stack gives what the expression has: its value on top of the stack, or a
fault of data. -/
structure Computes (e : Expr) (ws : List String) : Prop where
  value : ∀ v, Numeric.expr e = .ok v →
    ∃ d, v = some (.number d) ∧ ∀ stack, Postfix.words ws stack = .ok () (d :: stack)
  failure : ∀ f, Numeric.expr e = .error f → ∀ stack,
    ∃ f' left, Postfix.words ws stack = .error f' left ∧ f'.ofData = true

namespace Computes

open Postfix (words_append_of_ok words_append_of_error)

variable {e l r : Expr} {ws ws' : List String}

theorem of_value {d : Datum} (eq : Numeric.expr e = .ok (some (.number d)))
    (pushed : ∀ stack, Postfix.words ws stack = .ok () (d :: stack)) : Computes e ws where
  value v h := by
    rw [eq] at h
    cases h
    exact ⟨d, rfl, pushed⟩
  failure f h := by
    rw [eq] at h
    cases h

theorem of_failure {f : Failure} (eq : Numeric.expr e = .error f)
    (failed : ∀ stack, ∃ f' left, Postfix.words ws stack = .error f' left ∧ f'.ofData = true) :
    Computes e ws where
  value v h := by
    rw [eq] at h
    cases h
  failure _ _ := failed

theorem group (h : Computes e ws) (line : Line) : Computes (.group e line) ws :=
  ⟨h.value, h.failure⟩

/-- On numbers an operator does what its word does, but for a division by zero, which it reports
itself. -/
theorem binary_numbers {op : Token} {o : BinaryOp} (spelled : op.Spelled)
    (h : Numeric.operator? op.kind = some o) (a b : Datum) (line : Line) :
    (∃ d, Postfix.apply op.lexeme a b = .ok d ∧
      Numeric.binary op (.number a) (.number b) line = .ok (some (.number d))) ∨
    (∃ f f', Postfix.apply op.lexeme a b = .error f ∧
      Numeric.binary op (.number a) (.number b) line = .error f') := by
  have known := operator_cases spelled h
  simp only [List.mem_cons, Prod.mk.injEq, List.not_mem_nil, or_false] at known
  have applied : o.apply (.number a) (.number b) =
      ((Postfix.apply op.lexeme a b).map Value.number).mapError .fault := by
    rcases known with ⟨-, word, rfl⟩ | ⟨-, word, rfl⟩ | ⟨-, word, rfl⟩ | ⟨-, word, rfl⟩ |
      ⟨-, word, rfl⟩ <;> rw [word] <;> rfl
  unfold Numeric.binary
  simp only [h]
  split
  · rename_i zero
    rw [Bool.and_eq_true] at zero
    have word : op.lexeme = "/" := by
      rcases known with ⟨-, word, rfl⟩ | ⟨-, word, rfl⟩ | ⟨-, word, rfl⟩ | ⟨-, word, rfl⟩ |
        ⟨-, word, rfl⟩
      all_goals first | exact word | exact absurd zero.1 (by decide)
    obtain ⟨f, failed⟩ := Datum.div_of_same_zero a zero.2
    exact .inr ⟨f, _, by rw [word]; exact failed, rfl⟩
  · rw [applied]
    cases Postfix.apply op.lexeme a b with
    | ok d => exact .inl ⟨d, rfl, rfl⟩
    | error f => exact .inr ⟨f, _, rfl, rfl⟩

theorem binary {op : Token} {o : BinaryOp} {rank : Nat} (spelled : op.Spelled)
    (h : Numeric.operator? op.kind = some o) (found : Infix.rank? op.lexeme = some rank)
    (left : Computes l ws) (right : Computes r ws') (line : Line) :
    Computes (.binary op l r line) (ws ++ ws' ++ [op.lexeme]) := by
  have opened : Numeric.expr (.binary op l r line) = (do
      let a ← Numeric.demand (← Numeric.expr l)
      let b ← Numeric.demand (← Numeric.expr r)
      Numeric.binary op a b line) := rfl
  cases hl : Numeric.expr l with
  | error f =>
    refine .of_failure (f := f) (by rw [opened, hl]; rfl) fun stack => ?_
    obtain ⟨f', rest, failed, data⟩ := left.failure f hl stack
    exact ⟨f', rest, words_append_of_error (words_append_of_error failed), data⟩
  | ok v =>
    obtain ⟨a, rfl, pushed⟩ := left.value v hl
    cases hr : Numeric.expr r with
    | error f =>
      refine .of_failure (f := f) (by rw [opened, hl, hr]; rfl) fun stack => ?_
      obtain ⟨f', rest, failed, data⟩ := right.failure f hr (a :: stack)
      refine ⟨f', rest, words_append_of_error ?_, data⟩
      rw [words_append_of_ok (pushed stack), failed]
    | ok v =>
      obtain ⟨b, rfl, pushed'⟩ := right.value v hr
      have both : ∀ stack, Postfix.words (ws ++ ws' ++ [op.lexeme]) stack =
          Postfix.words [op.lexeme] (b :: a :: stack) := by
        intro stack
        refine words_append_of_ok ?_
        rw [words_append_of_ok (pushed stack), pushed']
      have reduced : Numeric.expr (.binary op l r line) =
          Numeric.binary op (.number a) (.number b) line := by
        rw [opened, hl, hr]
        rfl
      rcases binary_numbers spelled h a b line with ⟨d, applied, eq⟩ | ⟨f, f', applied, eq⟩
      · refine .of_value (reduced.trans eq) fun stack => ?_
        rw [both, Postfix.words_operator_of_ok found applied]
      · refine .of_failure (reduced.trans eq) fun stack => ?_
        rw [both]
        exact ⟨f, stack, Postfix.words_operator_of_error found applied stack,
          Postfix.apply_mild _ _ _ _ applied⟩

end Computes

/-! ### Formulas that the grammar derives -/

/-- The words `out` are the postfix notation of a formula that some tokens write. -/
structure Listed (rank : Nat) (e : Expr) (ts : List Token) (out : List String) : Prop where
  kinds : ∀ t ∈ ts, t.kind ∈ Parse.formulaKinds
  order : ∀ more, e.postorder (numerals ts ++ more) = (out, more)
  converts : Infix.Converts rank (ts.map Token.lexeme) out
  computes : (∀ t ∈ ts, t.Faithful) → Computes e out

namespace Listed

variable {rank rank' : Nat} {e l r : Expr} {t op : Token} {ts ts' : List Token}
  {out out' : List String}

theorem mono (le : rank ≤ rank') (h : Listed rank' e ts out) : Listed rank e ts out :=
  { h with converts := h.converts.mono le }

theorem number (spelled : t.Spelled) (kind : t.kind = .integer ∨ t.kind = .float)
    (leaf : ∀ ws, e.postorder ws = (ws.take 1, ws.drop 1))
    (value : t.Faithful → ∃ x, Number.readReal t.lexeme = .ok x ∧
      Numeric.expr e = .ok (some (.number (.float x)))) : Listed rank e [t] [t.lexeme] where
  kinds := by
    rintro _ (_ | ⟨_, ⟨⟩⟩)
    rcases kind with kind | kind <;> simp [kind, Parse.formulaKinds]
  order more := by
    have listed : numerals [t] = [t.lexeme] := by
      rcases kind with kind | kind <;> simp [numerals, kind]
    rw [listed, leaf]
    rfl
  converts := by
    obtain ⟨plain, notOpen, notClose⟩ := numeral_plain spelled kind
    exact Infix.converts_word plain notOpen notClose
  computes faithful := by
    obtain ⟨x, read, eq⟩ := value (faithful t (List.mem_singleton_self t))
    exact .of_value eq (Postfix.words_number (numeral_plain spelled kind).1 read)

theorem group {close : Token} {line : Line} (h : Listed rank e ts out) (opens : t.Spelled)
    (closes : close.Spelled) (kind : t.kind = .lparen) (kind' : close.kind = .rparen) :
    Listed rank' (.group e line) (t :: ts ++ [close]) out where
  kinds := by
    intro u mem
    simp only [List.cons_append, List.mem_cons, List.mem_append, List.not_mem_nil, or_false] at mem
    rcases mem with rfl | mem | rfl
    · simp [kind, Parse.formulaKinds]
    · exact h.kinds u mem
    · simp [kind', Parse.formulaKinds]
  order more := by
    have same : numerals (t :: ts ++ [close]) = numerals ts := by
      simp [numerals, kind, kind']
    rw [same]
    exact h.order more
  converts := by
    have eq : t.lexeme = "(" := opens.lexeme_eq (d := '(') (by rw [kind]; rfl)
    have eq' : close.lexeme = ")" := closes.lexeme_eq (d := ')') (by rw [kind']; rfl)
    simpa [eq, eq'] using h.converts.group
  computes faithful :=
    (h.computes fun t mem => faithful t (by simp [mem])).group line

/-- Two formulas and an operator, for any way to convert them together. -/
theorem binary {o : BinaryOp} {line : Line} (spelled : op.Spelled)
    (known : Numeric.operator? op.kind = some o) (found : Infix.rank? op.lexeme = some rank)
    {left right : Nat} (hl : Listed left l ts out) (hr : Listed right r ts' out')
    (converts : Infix.Converts rank (ts.map Token.lexeme ++ op.lexeme :: ts'.map Token.lexeme)
      (out ++ out' ++ [op.lexeme])) :
    Listed rank (.binary op l r line) (ts ++ op :: ts') (out ++ out' ++ [op.lexeme]) where
  kinds := by
    intro u mem
    rcases List.mem_append.mp mem with mem | mem
    · exact hl.kinds u mem
    · rcases List.mem_cons.mp mem with rfl | mem
      · exact (kinds_of_operator known).1
      · exact hr.kinds u mem
  order more := by
    have same : numerals (ts ++ op :: ts') ++ more = numerals ts ++ (numerals ts' ++ more) := by
      obtain ⟨-, notInteger, notFloat⟩ := kinds_of_operator known
      simp [numerals, notInteger, notFloat]
    rw [same]
    simp only [Expr.postorder, hl.order, hr.order]
  converts := by simpa using converts
  computes faithful := by
    have left := hl.computes fun t mem => faithful t (by simp [mem])
    have right := hr.computes fun t mem => faithful t (by simp [mem])
    exact left.binary spelled known found right line

end Listed

namespace Parse

/-- The rank of the loosest operators of the first `n` levels. -/
def levelRank : Nat → Nat
  | 0 | 1 => 4
  | 2 => 3
  | _ => 2

theorem levelRank_succ_le (n : Nat) : levelRank (n + 1) ≤ levelRank n := by
  match n with
  | 0 | 1 | 2 | _ + 3 => simp [levelRank]

theorem rank_of_operator {n : Nat} {t : Token} {o : BinaryOp} (spelled : t.Spelled)
    (rank : t.kind.rank = n + 3) (known : Numeric.operator? t.kind = some o) :
    Infix.rank? t.lexeme = some (levelRank (n + 1)) ∧ Infix.nestsRight t.lexeme = false ∧
      levelRank n = levelRank (n + 1) + 1 := by
  have cases := operator_cases spelled known
  simp only [List.mem_cons, Prod.mk.injEq, List.not_mem_nil, or_false] at cases
  by_cases chained : n = 1 ∨ n = 2
  · rcases chained with rfl | rfl <;>
      rcases cases with ⟨kind, word, -⟩ | ⟨kind, word, -⟩ | ⟨kind, word, -⟩ | ⟨kind, word, -⟩ |
        ⟨kind, word, -⟩ <;> rw [kind] at rank <;> rw [word] <;> revert rank <;> decide
  · -- The other levels have no operator that numbers know.
    rcases cases with ⟨kind, -⟩ | ⟨kind, -⟩ | ⟨kind, -⟩ | ⟨kind, -⟩ | ⟨kind, -⟩ <;>
      simp only [kind, Kind.rank] at rank <;> omega

/-- A formula that is written by some tokens has a postfix notation. -/
def HasListing (rank : Nat) (e : Expr) (ts : List Token) : Prop :=
  e.all Expr.isArithmetic = true → (∀ t ∈ ts, t.Spelled) → ∃ out, Listed rank e ts out

/-- The rank of the operators of a phrase outside parentheses. -/
def Phrase.HasListing : Phrase → List Token → Prop
  | .primary e, ts => Parse.HasListing 5 e ts
  | .power e, ts | .signed e, ts => Parse.HasListing 4 e ts
  | .level n e, ts => Parse.HasListing (levelRank n) e ts
  | _, _ => True

theorem Derives.hasListing {p : Phrase} {ts : List Token} (h : Derives Eq p ts) :
    p.HasListing ts := by
  induction h with
  | @integer t line n kind read =>
    intro _ spelled
    refine ⟨_, .number (spelled _ (List.mem_singleton_self _)) (.inl kind) (fun _ => rfl) ?_⟩
    intro faithful
    obtain ⟨x, converted, read'⟩ := faithful kind n read
    exact ⟨x, read', by rw [Numeric.expr]; simp [converted]⟩
  | @real t line x kind read =>
    intro _ spelled
    exact ⟨_, .number (spelled _ (List.mem_singleton_self _)) (.inr kind) (fun _ => rfl)
      fun _ => ⟨x, read, rfl⟩⟩
  | @group t e ts close line kind inner kind' ih =>
    intro arithmetic spelled
    simp only [Expr.all, Bool.and_eq_true] at arithmetic
    obtain ⟨out, listed⟩ := ih arithmetic.2 fun t mem => spelled t (by simp [mem])
    exact ⟨out, listed.group (spelled t (by simp)) (spelled close (by simp)) kind kind'⟩
  | base _ ih =>
    intro arithmetic spelled
    obtain ⟨out, listed⟩ := ih arithmetic spelled
    exact ⟨out, listed.mono (by decide)⟩
  | @raised l ts op t r ts' line _ same caret _ ih ih' =>
    intro arithmetic spelled
    subst same
    obtain ⟨arithmetic₁, arithmetic₂⟩ := Expr.all_binary arithmetic
    obtain ⟨out, listed⟩ := ih arithmetic₁ fun t mem => spelled t (by simp [mem])
    obtain ⟨out', listed'⟩ := ih' arithmetic₂ fun t mem => spelled t (by simp [mem])
    have spelledOp : op.Spelled := spelled op (by simp)
    have word : op.lexeme = "^" := spelledOp.lexeme_eq (d := '^') (by rw [caret]; rfl)
    have found : Infix.rank? op.lexeme = some 4 := by rw [word]; rfl
    refine ⟨_, listed.binary (o := .pow) spelledOp (by rw [caret]; rfl) found listed' ?_⟩
    exact listed.converts.nestedRight found (by rw [word]; rfl) listed'.converts
  | unsigned _ ih => exact ih
  | operand _ ih => exact ih
  | @tighter n e ts _ ih =>
    intro arithmetic spelled
    obtain ⟨out, listed⟩ := ih arithmetic spelled
    exact ⟨out, listed.mono (levelRank_succ_le n)⟩
  | @binary n l ts op t r ts' line _ _ same rank _ ih ih' =>
    intro arithmetic spelled
    subst same
    obtain ⟨arithmetic₁, arithmetic₂⟩ := Expr.all_binary arithmetic
    obtain ⟨out, listed⟩ := ih arithmetic₁ fun t mem => spelled t (by simp [mem])
    obtain ⟨out', listed'⟩ := ih' arithmetic₂ fun t mem => spelled t (by simp [mem])
    have spelledOp : op.Spelled := spelled op (by simp)
    obtain ⟨o, known⟩ := Option.isSome_iff_exists.mp (Expr.holds_of_all arithmetic)
    obtain ⟨found, nests, next⟩ := rank_of_operator spelledOp rank known
    rw [next] at listed'
    refine ⟨_, listed.binary spelledOp known found listed' ?_⟩
    exact listed.converts.nestedLeft found nests listed'.converts
  | yes | no | text | name | call | sign | logical =>
    intro arithmetic
    simp [Expr.all, Expr.isArithmetic] at arithmetic
  | _ => trivial

end Parse

theorem Expr.isNegation_of_arithmetic {e : Expr} (h : e.all Expr.isArithmetic = true) :
    e.isNegation = false := by
  cases e with
  | unary => cases h
  | _ => rfl

/-- Without signs no exponent has one. -/
theorem Expr.notRaised_of_arithmetic {e : Expr} (h : e.all Expr.isArithmetic = true) :
    e.all Expr.notRaisedToNegation = true := by
  match e with
  | .integer .. | .real .. => rfl
  | .group inner line =>
    simp only [Expr.all, Bool.and_eq_true] at h ⊢
    exact ⟨rfl, Expr.notRaised_of_arithmetic h.2⟩
  | .binary op left right line =>
    obtain ⟨hl, hr⟩ := Expr.all_binary h
    simp only [Expr.all, Bool.and_eq_true]
    refine ⟨⟨?_, Expr.notRaised_of_arithmetic hl⟩, Expr.notRaised_of_arithmetic hr⟩
    simp [Expr.notRaisedToNegation, Expr.isNegation_of_arithmetic hr]
  | .unary .. | .logical .. | .bool .. | .text .. | .name .. | .call .. =>
    simp [Expr.all, Expr.isArithmetic] at h

namespace Postfix

/-- For a formula that parsing by powers reads at the start of a source text, the words of the
tokens read, separated by spaces, convert to the postfix listing of its tree. If numerals read as
the numbers they are in the tree, evaluating the listing gives the one value that the tree has, and
faults where the tree has none, but never for want of operands. -/
theorem formula_agrees {source : String} {tokens : List Token} {t : Expr} {c : Cursor}
    (lexed : tokenize source = .ok tokens)
    (parsed : (Parse.Binding.parse tokens).Gives (some t) c)
    (arithmetic : t.all Expr.isArithmetic = true) :
    let read := tokens.take c.position
    let ws := Infix.toPostfix (Text.words (" ".intercalate (read.map Token.lexeme)))
    t.postorder (numerals read) = (ws, []) ∧
    ((∀ n ∈ read, n.Faithful) →
      (∀ v, Numeric.expr t = .ok v → ∃ d, v = some (.number d) ∧ evaluate ws [] = .ok d []) ∧
      (∀ f, Numeric.expr t = .error f →
        ∃ f' left, evaluate ws [] = .error f' left ∧ f' ≠ .index .pop)) := by
  intro read ws
  have spelled : (Cursor.ofList tokens).All Token.Spelled := tokens_spelled lexed
  have given := Parse.expr_level (n := Parse.levels) parsed spelled
    (Expr.notRaised_of_arithmetic arithmetic)
  obtain ⟨ts, spans, derived⟩ := Parse.expr_derives given
  have eq : read = ts := (Parse.spans_ofList spans).1
  have spelledRead : ∀ t ∈ read, t.Spelled := fun t mem => spelled t (List.mem_of_mem_take mem)
  subst eq
  obtain ⟨out, listed⟩ := derived.hasListing arithmetic spelledRead
  have cut : Text.words (" ".intercalate (read.map Token.lexeme)) = read.map Token.lexeme := by
    refine Text.words_intercalate fun w mem => ?_
    obtain ⟨t, isRead, rfl⟩ := List.mem_map.mp mem
    exact isWord_of_formula (spelledRead t isRead) (listed.kinds t isRead)
  have converted : ws = out := by
    rw [← listed.converts.toPostfix_eq, ← cut]
  have order := listed.order []
  rw [List.append_nil, ← converted] at order
  refine ⟨order, fun faithful => ?_⟩
  have computes := listed.computes faithful
  rw [← converted] at computes
  refine ⟨?_, ?_⟩
  · intro v value
    obtain ⟨d, rfl, pushed⟩ := computes.value v value
    exact ⟨d, rfl, evaluate_of_ok (pushed [])⟩
  · intro f failure
    obtain ⟨f', left, failed, data⟩ := computes.failure f failure []
    refine ⟨f', left, evaluate_of_error failed, ?_⟩
    rintro rfl
    cases data

/-- The tree of `8-(3+4)*2/5`. -/
def lessQuotient : Expr :=
  .binary ⟨.minus, "-", 1⟩ (.integer 8 1)
    (.binary ⟨.slash, "/", 1⟩
      (.binary ⟨.star, "*", 1⟩
        (.group (.binary ⟨.plus, "+", 1⟩ (.integer 3 1) (.integer 4 1) 1) 1) (.integer 2 1) 1)
      (.integer 5 1) 1) 1

theorem faithful_of_read {t : Token} {n : Int} (read : Number.readWhole t.lexeme = .ok n)
    (same : ∃ x, Number.ofInt? n = some x ∧ Number.readReal t.lexeme = .ok x) : t.Faithful := by
  intro _ m read'
  rw [read] at read'
  cases read'
  exact same

theorem lessQuotient_agrees : ∃ tokens c d, tokenize "8-(3+4)*2/5" = .ok tokens ∧
    (Parse.Binding.parse tokens).Gives (some lessQuotient) c ∧
    lessQuotient.all Expr.isArithmetic = true ∧
    (∀ n ∈ tokens.take c.position, n.Faithful) ∧
    Numeric.expr lessQuotient = .ok (some (.number d)) ∧
    evaluate ["8", "3", "4", "+", "2", "*", "5", "/", "-"] [] = .ok d [] := by
  have lexed : tokenize "8-(3+4)*2/5" = .ok [⟨.integer, "8", 1⟩, ⟨.minus, "-", 1⟩,
      ⟨.lparen, "(", 1⟩, ⟨.integer, "3", 1⟩, ⟨.plus, "+", 1⟩, ⟨.integer, "4", 1⟩,
      ⟨.rparen, ")", 1⟩, ⟨.star, "*", 1⟩, ⟨.integer, "2", 1⟩, ⟨.slash, "/", 1⟩,
      ⟨.integer, "5", 1⟩] := by
    cbv
  generalize tokens : [_, _, _, _, _, _, _, _, _, _, _] = ts at lexed
  have parsed : (Parse.Binding.parse ts).Gives (some lessQuotient) ⟨ts.reverse, []⟩ := by
    subst tokens
    exact ⟨by decide, by cbv⟩
  have arithmetic : lessQuotient.all Expr.isArithmetic = true := by decide
  have sign : ∀ t : Token, t.kind ≠ .integer → t.Faithful := fun t ne kind => absurd kind ne
  have faithful : ∀ n ∈ ts.take (Cursor.position ⟨ts.reverse, []⟩), n.Faithful := by
    subst tokens
    simp only [Cursor.position, List.length_reverse, List.length_cons, List.length_nil, List.take,
      List.forall_mem_cons]
    exact ⟨faithful_of_read rfl ⟨_, rfl, rfl⟩, sign _ (by decide), sign _ (by decide),
      faithful_of_read rfl ⟨_, rfl, rfl⟩, sign _ (by decide), faithful_of_read rfl ⟨_, rfl, rfl⟩,
      sign _ (by decide), sign _ (by decide), faithful_of_read rfl ⟨_, rfl, rfl⟩,
      sign _ (by decide), faithful_of_read rfl ⟨_, rfl, rfl⟩, List.forall_mem_nil _⟩
  obtain ⟨v, value⟩ : ∃ v, Numeric.expr lessQuotient = .ok v := ⟨_, rfl⟩
  obtain ⟨listing, computes⟩ := formula_agrees lexed parsed arithmetic
  obtain ⟨d, rfl, evaluated⟩ := (computes faithful).1 v value
  refine ⟨ts, _, d, lexed, parsed, arithmetic, faithful, value, ?_⟩
  rw [← (Prod.mk.inj listing).1] at evaluated
  subst tokens
  exact evaluated

end Postfix

end ScriptLang
