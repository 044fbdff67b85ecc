import ScriptLang.Value.Basic

/-!
Values whose tags tell the truth.

A value fits its tag if its datum is of the kind that the tag names. What may carry the tag of
numbers is left open: numbers only, or basic data, which truth values and texts are as well. Both
choices are closed under arithmetic, so operations on values that fit yield values that fit
(`Closed.apply`, `Closed.neg`).
-/

namespace ScriptLang

namespace Datum

/-- A whole, real or complex number; a truth value is none. -/
def isNumber : Datum → Bool
  | .int _ | .float _ | .complex _ _ => true
  | _ => false

/-- A number, a truth value or a text. -/
def isBasic : Datum → Bool
  | .none | .tuple _ => false
  | _ => true

theorem isBasic_of_isNumber {d : Datum} (h : d.isNumber = true) : d.isBasic = true := by
  cases d <;> first | rfl | cases h

end Datum

/-- The datum of a value is of the kind that its tag names, and is one of `P` if it is tagged as a
number. -/
def Value.fits (P : Datum → Bool) (v : Value) : Bool :=
  match v.tag, v.datum with
  | .number, d => P d
  | .string, .str _ => true
  | .bool, .bool _ => true
  | _, _ => false

/-- If there is a result, then `Q` holds of it. -/
def Gives {ε α : Type} (Q : α → Prop) (r : Except ε α) : Prop :=
  ∀ a, r = .ok a → Q a

section

variable {ε α β : Type} {Q : α → Prop} {Q' : β → Prop} {r : Except ε α}

theorem gives_ok {a : α} (h : Q a) : Gives Q (.ok a : Except ε α) := by
  rintro _ ⟨⟩
  exact h

theorem gives_error (e : ε) : Gives Q (.error e : Except ε α) := nofun

theorem Gives.map {g : α → β} (h : Gives Q r) (maps : ∀ a, Q a → Q' (g a)) :
    Gives Q' (r.map g) := by
  cases r with
  | error e => exact gives_error e
  | ok a => exact gives_ok (maps a (h a rfl))

theorem Gives.mono {Q' : α → Prop} (h : Gives Q r) (weaker : ∀ a, Q a → Q' a) : Gives Q' r := by
  intro a result
  exact weaker a (h a result)

theorem gives_any (r : Except ε α) : Gives (fun _ => True) r := fun _ _ => trivial

end

namespace Datum

variable {a b : Datum}

theorem isNumber_toDatum (x : Num) : x.toDatum.isNumber = true := by
  cases x <;> rfl

theorem onNumbers_number (op : String) (f : Num → Num → Except Fault Num) (a b : Datum) :
    Gives (·.isNumber = true) (onNumbers op f a b) := by
  unfold onNumbers
  split
  · exact (gives_any _).map fun x _ => isNumber_toDatum x
  · exact gives_error _

theorem mod_number (left : a.isNumber = true) (b : Datum) :
    Gives (·.isNumber = true) (a.mod b) := by
  unfold mod
  split
  · cases left
  · split
    · split
      · exact gives_ok (isNumber_toDatum _)
      · exact gives_error _
      · exact gives_error _
    · exact gives_error _

/-- A pattern that is filled is a text again. -/
theorem mod_basic (a b : Datum) : Gives (·.isBasic = true) (a.mod b) := by
  unfold mod
  split
  · exact (gives_any _).map fun _ _ => rfl
  · split
    · split
      · exact gives_ok (isBasic_of_isNumber (isNumber_toDatum _))
      · exact gives_error _
      · exact gives_error _
    · exact gives_error _

theorem neg_number (a : Datum) : Gives (·.isNumber = true) a.neg := by
  unfold neg
  split
  · exact gives_ok (isNumber_toDatum _)
  · exact gives_error _

/-- Nothing but a number comes of adding to a number, whatever is added. -/
theorem add_number (left : a.isNumber = true) (b : Datum) :
    Gives (·.isNumber = true) (a.add b) := by
  unfold add
  split
  · cases left
  · cases left
  · cases left
  · cases left
  · exact onNumbers_number _ _ _ _

theorem add_basic (left : a.isBasic = true) (b : Datum) : Gives (·.isBasic = true) (a.add b) := by
  unfold add
  split
  · exact gives_ok rfl
  · exact gives_error _
  · cases left
  · cases left
  · exact (onNumbers_number _ _ _ _).mono fun _ => isBasic_of_isNumber

theorem mul_number (left : a.isNumber = true) (right : b.isNumber = true) :
    Gives (·.isNumber = true) (a.mul b) := by
  unfold mul
  split
  · cases left
  · cases left
  · cases right
  · cases right
  · exact onNumbers_number _ _ _ _

theorem repeated_basic (left : a.isBasic = true) (b : Datum) :
    Gives (·.isBasic = true) (repeated a b) := by
  unfold repeated
  split
  · exact gives_error _
  · split
    · exact gives_ok rfl
    · cases left
    · exact gives_error _

theorem mul_basic (left : a.isBasic = true) (right : b.isBasic = true) :
    Gives (·.isBasic = true) (a.mul b) := by
  unfold mul
  split
  · exact repeated_basic left _
  · exact repeated_basic left _
  · exact repeated_basic right _
  · exact repeated_basic right _
  · exact (onNumbers_number _ _ _ _).mono fun _ => isBasic_of_isNumber

/-- Basic data that arithmetic does not lead out of, numbers among them. -/
structure Closed (P : Datum → Bool) : Prop where
  number : ∀ {d}, d.isNumber = true → P d = true
  basic : ∀ {d}, P d = true → d.isBasic = true
  add : ∀ {a}, P a = true → ∀ b, Gives (P · = true) (a.add b)
  mul : ∀ {a b}, P a = true → P b = true → Gives (P · = true) (a.mul b)
  mod : ∀ {a}, P a = true → ∀ b, Gives (P · = true) (a.mod b)

theorem closed_isNumber : Closed isNumber where
  number := id
  basic := isBasic_of_isNumber
  add := add_number
  mul := mul_number
  mod := mod_number

theorem closed_isBasic : Closed isBasic where
  number := isBasic_of_isNumber
  basic := id
  add := add_basic
  mul := mul_basic
  mod _ := mod_basic _

namespace Closed

variable {P : Datum → Bool} {v w : Value}

/-- Every value that fits has a basic datum. -/
theorem fits_basic (closed : Closed P) (h : v.fits P = true) : v.datum.isBasic = true := by
  obtain ⟨tag, datum⟩ := v
  cases tag with
  | number => exact closed.basic h
  | string | bool => cases datum <;> first | rfl | cases h
  | other => cases h

theorem fits_map {α : Type} {r : Except Fault α} {Q : α → Prop} {g : α → Value} (h : Gives Q r)
    (maps : ∀ a, Q a → (g a).fits P = true) :
    Gives (·.fits P = true) ((r.map g).mapError OperationError.fault) := by
  cases r with
  | error f => exact gives_error _
  | ok a => exact gives_ok (maps a (h a rfl))

theorem onNumbers (closed : Closed P) {f : Datum → Datum → Except Fault Datum}
    (numbers : ∀ a b, Gives (·.isNumber = true) (f a b)) (v w : Value) :
    Gives (·.fits P = true) (BinaryOp.onNumbers f v w) := by
  unfold BinaryOp.onNumbers
  split
  · exact fits_map (numbers _ _) fun _ => closed.number
  · exact gives_error _

/-- The operations keep values fitting. -/
theorem apply (closed : Closed P) (op : BinaryOp) (left : v.fits P = true)
    (right : w.fits P = true) : Gives (·.fits P = true) (op.apply v w) := by
  obtain ⟨t, a⟩ := v
  obtain ⟨u, b⟩ := w
  cases op with
  | add =>
    simp only [BinaryOp.apply]
    split
    · exact fits_map (closed.add left b) fun _ h => h
    · exact fits_map (gives_any _) fun _ _ => rfl
    · exact fits_map (gives_any _) fun _ _ => rfl
    · exact gives_error _
  | mul =>
    simp only [BinaryOp.apply, BinaryOp.onNumbers]
    split
    · exact fits_map (closed.mul left right) fun _ h => h
    · exact gives_error _
  | sub => exact closed.onNumbers (onNumbers_number _ _) _ _
  | div => exact closed.onNumbers (onNumbers_number _ _) _ _
  | mod =>
    simp only [BinaryOp.apply, BinaryOp.onNumbers]
    split
    · exact fits_map (closed.mod left b) fun _ h => h
    · exact gives_error _
  | pow => exact closed.onNumbers (onNumbers_number _ _) _ _
  | order c =>
    simp only [BinaryOp.apply]
    split
    · exact fits_map (gives_any _) fun _ _ => rfl
    · exact fits_map (gives_any _) fun _ _ => rfl
    · exact gives_error _
  | eq | ne =>
    simp only [BinaryOp.apply]
    split
    · exact gives_ok rfl
    · exact gives_ok rfl
    · exact gives_ok rfl
    · exact gives_error _

theorem neg (closed : Closed P) (v : Value) : Gives (·.fits P = true) v.neg := by
  unfold Value.neg
  split
  · exact fits_map (neg_number _) fun _ => closed.number
  · exact gives_error _

end Closed

end Datum

end ScriptLang
