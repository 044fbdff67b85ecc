import ScriptLang.Machine.Operation

/-!
The faults of operations on values.

An operation on data fails only for what the data are: by a division, by an overflow, by kinds that
it is not defined for, or by a text that cannot be shown. It never fails by a position, a key or an
attribute that is missing.
-/

namespace ScriptLang

/-- The faults that operations on data have. -/
def Fault.ofData : Fault → Bool
  | .division _ | .overflow _ | .decoding _ => true
  | .type (.operands _ _ _) | .type (.order _ _ _) | .type (.concatenation _ _)
  | .type (.repetition _) | .type (.negation _) | .type .unusedArguments | .type .fewArguments
  | .type .mapping | .type .star | .type (.wholeArgument _ _) | .type (.realArgument _ _)
  | .type (.real _) | .type .character => true
  | .value .digits | .value .trailingBackslash | .value (.badHex _) | .value .width
  | .value .precision | .value .incompletePlace | .value (.placeLetter _ _) | .value .nan => true
  | _ => false

/-- If there is no result, then by a fault of data. -/
def Mild {α : Type} (r : Except Fault α) : Prop :=
  ∀ f, r = .error f → f.ofData = true

variable {α β : Type} {r : Except Fault α}

theorem mild_ok (a : α) : Mild (.ok a : Except Fault α) := by
  rintro f ⟨⟩

theorem mild_error {f : Fault} (h : f.ofData = true) : Mild (.error f : Except Fault α) := by
  rintro _ ⟨⟩
  exact h

theorem Mild.map (h : Mild r) (g : α → β) : Mild (r.map g) := by
  cases r with
  | ok a => exact mild_ok (g a)
  | error f => exact mild_error (h f rfl)

theorem Mild.bind {g : α → Except Fault β} (h : Mild r) (h' : ∀ a, Mild (g a)) :
    Mild (r >>= g) := by
  cases r with
  | ok a => exact h' a
  | error f => exact mild_error (h f rfl)

namespace Pattern

theorem next_mild (args : List Datum) : Mild (next args) := by
  cases args with
  | nil => exact mild_error rfl
  | cons d ds => exact mild_ok _

theorem starValue_mild (low high : Int) (outside : OverflowFault) (d : Datum) :
    Mild (starValue low high outside d) := by
  unfold starValue
  split
  · exact mild_ok _
  · split
    · exact mild_ok _
    · exact mild_error rfl
  · exact mild_error rfl

theorem digitsSize_mild {large : ValueFault} (data : (Fault.value large).ofData = true)
    (ds : List Char) (high : Nat) : Mild (digitsSize ds high large) := by
  unfold digitsSize
  dsimp only
  split
  · exact mild_ok _
  · split
    · exact mild_ok _
    · exact mild_error data

theorem layout_mild (p : Place) (args : List Datum) : Mild (layout p args) := by
  have width (args : List Datum) : Mild (widthOf p.width args) := by
    unfold widthOf
    split
    · exact (next_mild args).bind fun taken => (starValue_mild _ _ _ _).bind fun _ => mild_ok _
    · exact (digitsSize_mild rfl _ _).bind fun _ => mild_ok _
  have precision (args : List Datum) : Mild (precisionOf p.precision args) := by
    unfold precisionOf
    split
    · exact mild_ok _
    · exact (next_mild args).bind fun taken => (starValue_mild _ _ _ _).bind fun _ => mild_ok _
    · exact (digitsSize_mild rfl _ _).bind fun _ => mild_ok _
  exact (width args).bind fun _ => (precision _).bind fun _ => mild_ok _

theorem checked_mild (text : Datum → String) (d : Datum) : Mild (checked text d) := by
  unfold checked
  split
  · split
    · exact mild_error rfl
    · exact mild_ok _
  · exact mild_ok _

theorem truncated_mild (letter : Char) (d : Datum) : Mild (truncated letter d) := by
  unfold truncated
  split
  · exact mild_ok _
  · exact mild_ok _
  · split
    · exact mild_error rfl
    · exact mild_error rfl
    · exact mild_ok _
  · exact mild_error rfl

theorem whole_mild (letter : Char) (d : Datum) : Mild (whole letter d) := by
  unfold whole
  split
  · exact mild_ok _
  · exact mild_ok _
  · exact mild_error rfl

theorem real_mild (d : Datum) : Mild (real d) := by
  unfold real
  split
  · exact mild_ok _
  · split
    · exact mild_ok _
    · exact mild_error rfl
  · exact mild_ok _
  · exact mild_error rfl

theorem digits_mild (l : Layout) (base : Nat) (mark : String) (i : Int) :
    Mild (l.digits base mark i) := by
  unfold Layout.digits
  dsimp only
  split
  · exact mild_error rfl
  · split
    · exact mild_error rfl
    · exact mild_ok _

theorem codePoint_mild (i : Int) : Mild (codePoint i) := by
  unfold codePoint
  split
  · exact mild_ok _
  · exact mild_error rfl

theorem character_mild (d : Datum) : Mild (character d) := by
  unfold character
  split
  · split
    · exact mild_ok _
    · exact mild_error rfl
  · exact codePoint_mild _
  · exact codePoint_mild _
  · exact mild_error rfl

theorem fill_mild (l : Layout) (letter : Char) (index : Nat) (d : Datum) :
    Mild (l.fill letter index d) := by
  have text (shown : Datum → String) {g : String → Filling} :
      Mild (checked shown d >>= fun s => pure (g s)) :=
    (checked_mild shown d).bind fun _ => mild_ok _
  have number {g : Float → Filling} : Mild (real d >>= fun x => pure (g x)) :=
    (real_mild d).bind fun _ => mild_ok _
  unfold Layout.fill
  split
  case h_4 | h_5 | h_6 => exact (truncated_mild _ d).bind fun i => digits_mild l _ _ i
  case h_7 | h_8 => exact (whole_mild _ d).bind fun i => digits_mild l _ _ i
  case h_9 =>
    exact (whole_mild _ d).bind fun i => (digits_mild l _ _ i).bind fun _ => mild_ok _
  case h_16 => exact (character_mild d).bind fun _ => mild_ok _
  case h_17 => exact mild_error rfl
  all_goals first | exact text _ | exact number

theorem fillPlace_mild (p : Place) (index : Nat) (args : List Datum) :
    Mild (fillPlace p index args) := by
  refine (layout_mild p args).bind fun laid => ?_
  dsimp only
  split
  · exact mild_error rfl
  · exact (next_mild _).bind fun taken => (fill_mild _ _ _ _).bind fun _ => mild_ok _

theorem fillFrom_mild (size skip : Nat) (cs : List Char) (args : List Datum) :
    Mild (fillFrom size skip cs args) := by
  induction cs generalizing skip args with
  | nil =>
    simp only [fillFrom]
    split
    · exact mild_ok _
    · exact mild_error rfl
  | cons c cs ih =>
    cases skip with
    | succ skip =>
      rw [fillFrom]
      exact ih skip args
    | zero =>
      rw [fillFrom]
      split
      · split
        · exact (ih _ _).map _
        · exact mild_error rfl
        · dsimp only
          split
          · exact mild_error (fillPlace_mild _ _ _ _ ‹_›)
          · exact (ih _ _).map _
      · exact (ih _ _).map _

/-- A pattern that cannot be filled is refused for what the data and the pattern are. -/
theorem apply_mild (pattern : String) (d : Datum) : Mild (apply pattern d) :=
  fillFrom_mild _ _ _ _

end Pattern

namespace Num

theorem realOf_mild (i : Int) : Mild (realOf i) := by
  unfold realOf
  split
  · exact mild_ok _
  · exact mild_error rfl

theorem pairOf_mild (a : Num) : Mild (pairOf a) := by
  cases a with
  | whole i => exact (realOf_mild i).map _
  | real x => exact mild_ok _
  | complex re im => exact mild_ok _

theorem unify_mild (a b : Num) : Mild (unify a b) := by
  unfold unify
  split
  · exact mild_ok _
  · exact (realOf_mild _).map _
  · exact (realOf_mild _).map _
  · exact mild_ok _
  · cases left : pairOf a with
    | error e => exact mild_error (pairOf_mild a e left)
    | ok x =>
      cases right : pairOf b with
      | error e => exact mild_error (pairOf_mild b e right)
      | ok y => exact mild_ok _

theorem complexFault_ofData (e : Number.ComplexError) : (complexFault e).ofData = true := by
  cases e <;> rfl

theorem div_mild (a b : Num) : Mild (div a b) := by
  unfold div
  split
  · rename_i failed
    exact mild_error (unify_mild a b _ failed)
  · split
    · exact mild_error rfl
    · split
      · exact mild_ok _
      · exact mild_error rfl
  · split
    · exact mild_error rfl
    · exact mild_ok _
  · split
    · exact mild_ok _
    · exact mild_error (complexFault_ofData _)

theorem mod_mild (a b : Num) : Mild (mod a b) := by
  unfold mod
  split
  · exact mild_ok _
  · exact mild_ok _
  · split
    · rename_i failed
      exact mild_error (unify_mild a b _ failed)
    · split
      · exact mild_error rfl
      · exact mild_ok _
    · split
      · exact mild_error rfl
      · exact mild_ok _
    · exact mild_ok _

theorem realPow_mild (a b : Float) : Mild (realPow a b) := by
  unfold realPow
  split
  · exact mild_ok _
  · exact mild_ok _
  · exact mild_error rfl
  · exact mild_error rfl
  · exact mild_error rfl

theorem pow_mild (a b : Num) : Mild (pow a b) := by
  unfold pow
  split
  · rename_i failed
    exact mild_error (unify_mild a b _ failed)
  · split
    · exact mild_ok _
    · rename_i i j _ _
      cases left : realOf i with
      | error e => exact mild_error (realOf_mild i e left)
      | ok x =>
        cases right : realOf j with
        | error e => exact mild_error (realOf_mild j e right)
        | ok y => exact realPow_mild _ _
  · exact realPow_mild _ _
  · split
    · exact mild_ok _
    · exact mild_error (complexFault_ofData _)

end Num

namespace Datum

theorem onNumbers_mild {op : String} {f : Num → Num → Except Fault Num}
    (mild : ∀ x y, Mild (f x y)) (a b : Datum) : Mild (onNumbers op f a b) := by
  unfold onNumbers
  split
  · exact (mild _ _).map _
  · exact mild_error rfl

theorem add_mild (a b : Datum) : Mild (a.add b) := by
  unfold add
  split
  · exact mild_ok _
  · exact mild_error rfl
  · exact mild_ok _
  · exact mild_error rfl
  · exact onNumbers_mild (fun x y => (Num.unify_mild x y).map _) _ _

theorem count_mild (d : Datum) : Mild d.count := by
  unfold count
  split
  · exact mild_ok _
  · split
    · exact mild_ok _
    · exact mild_error rfl
  · exact mild_error rfl

theorem repeated_mild (a b : Datum) : Mild (repeated a b) := by
  unfold repeated
  split
  · rename_i failed
    exact mild_error (count_mild b _ failed)
  · split
    · exact mild_ok _
    · exact mild_ok _
    · exact mild_error rfl

theorem mul_mild (a b : Datum) : Mild (a.mul b) := by
  unfold mul
  split
  · exact repeated_mild _ _
  · exact repeated_mild _ _
  · exact repeated_mild _ _
  · exact repeated_mild _ _
  · exact onNumbers_mild (fun x y => (Num.unify_mild x y).map _) _ _

theorem mod_mild (a b : Datum) : Mild (a.mod b) := by
  unfold mod
  split
  · exact (Pattern.apply_mild _ b).map _
  · split
    · split
      · exact mild_ok _
      · exact mild_error rfl
      · rename_i failed
        exact mild_error (Num.mod_mild _ _ _ failed)
    · exact mild_error rfl

theorem neg_mild (a : Datum) : Mild a.neg := by
  unfold neg
  split
  · exact mild_ok _
  · exact mild_error rfl

theorem stringify_mild (a : Datum) : Mild a.stringify := by
  unfold stringify
  split
  · exact mild_ok _
  · split
    · exact mild_ok _
    · exact mild_ok _
  · dsimp only
    split
    · exact mild_error rfl
    · exact mild_ok _
  · exact mild_ok _

mutual
theorem ordered_mild (c : Comparison) (a b : Datum) : Mild (a.ordered c b) := by
  unfold ordered
  split
  · exact mild_ok _
  · exact orderedAll_mild c _ _
  · split
    · split
      · exact mild_ok _
      · exact mild_ok _
      · exact mild_error rfl
    · exact mild_error rfl

theorem orderedAll_mild (c : Comparison) (xs ys : List Datum) : Mild (orderedAll c xs ys) := by
  match xs, ys with
  | [], [] => unfold orderedAll; exact mild_ok _
  | [], _ :: _ => unfold orderedAll; exact mild_ok _
  | _ :: _, [] => unfold orderedAll; exact mild_ok _
  | x :: xs, y :: ys =>
    unfold orderedAll
    split
    · exact orderedAll_mild c xs ys
    · exact ordered_mild c x y
end

end Datum

theorem Bitwise.onData_mild (op : Bitwise) (a b : Datum) : Mild (op.onData a b) := by
  unfold Bitwise.onData
  split
  · exact mild_ok _
  · split
    · exact mild_ok _
    · exact mild_error rfl

/-- If an operation on values has no result, then by its tags or by a fault of data. -/
def MildOp (r : Except OperationError Value) : Prop :=
  ∀ f, r = .error (.fault f) → f.ofData = true

theorem Mild.toOp {r : Except Fault α} (h : Mild r) (g : α → Value) :
    MildOp ((r.map g).mapError .fault) := by
  cases r with
  | ok a => rintro f ⟨⟩
  | error e =>
    rintro _ ⟨⟩
    exact h e rfl

theorem mildOp_tags : MildOp (.error .tags) := by
  rintro f ⟨⟩

theorem mildOp_ok (v : Value) : MildOp (.ok v) := by
  rintro f ⟨⟩

namespace BinaryOp

theorem onNumbers_mild {f : Datum → Datum → Except Fault Datum} (mild : ∀ x y, Mild (f x y))
    (a b : Value) : MildOp (onNumbers f a b) := by
  unfold onNumbers
  split
  · exact (mild _ _).toOp _
  · exact mildOp_tags

theorem join_mild (a b : Datum) : Mild (join a b) := by
  unfold join
  split
  · rename_i failed
    exact mild_error (Datum.stringify_mild a _ failed)
  · exact (Datum.stringify_mild b).map _

theorem apply_mild (op : BinaryOp) (a b : Value) : MildOp (op.apply a b) := by
  cases op with
  | add =>
    simp only [apply]
    split
    · exact (Datum.add_mild _ _).toOp _
    · exact (join_mild _ _).toOp _
    · exact (join_mild _ _).toOp _
    · exact mildOp_tags
  | sub => exact onNumbers_mild (Datum.onNumbers_mild fun x y => (Num.unify_mild x y).map _) a b
  | mul => exact onNumbers_mild Datum.mul_mild a b
  | div => exact onNumbers_mild (Datum.onNumbers_mild Num.div_mild) a b
  | mod => exact onNumbers_mild Datum.mod_mild a b
  | pow => exact onNumbers_mild (Datum.onNumbers_mild Num.pow_mild) a b
  | order c =>
    simp only [apply]
    split
    · exact (Datum.ordered_mild c _ _).toOp _
    · exact (Datum.ordered_mild c _ _).toOp _
    · exact mildOp_tags
  | eq =>
    simp only [apply]
    split <;> first | exact mildOp_ok _ | exact mildOp_tags
  | ne =>
    simp only [apply]
    split <;> first | exact mildOp_ok _ | exact mildOp_tags

end BinaryOp

namespace Value

theorem neg_mild (v : Value) : MildOp v.neg := by
  unfold neg
  split
  · exact (Datum.neg_mild _).toOp _
  · exact mildOp_tags

theorem bitwise_mild (op : Bitwise) (a b : Value) : MildOp (a.bitwise op b) := by
  unfold bitwise
  split
  · exact (op.onData_mild _ _).toOp _
  · exact (op.onData_mild _ _).toOp _
  · exact mildOp_tags

theorem printed_mild (d : Datum) : Mild (printed d) := by
  unfold printed
  split
  · rename_i failed
    exact mild_error (Datum.stringify_mild d _ failed)
  · rename_i text _
    cases Text.unescape text with
    | ok shown => exact mild_ok _
    | error e => cases e <;> exact mild_error rfl

end Value

end ScriptLang
