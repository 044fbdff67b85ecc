import ScriptLang.Fault

/-!
Equality and order of data.

Numbers are compared by value across kinds, exactly; texts by their characters. Data of different
kinds are unequal and have no order, and neither have complex numbers.
-/

namespace ScriptLang

namespace Num

/-- Equality by value. -/
def same : Num → Num → Bool
  | .whole a, .whole b => a == b
  | .whole a, .real b => Number.compareInt a b == some .eq
  | .real a, .whole b => Number.compareInt b a == some .eq
  | .real a, .real b => a == b
  | .complex re im, .complex re' im' => re == re' && im == im'
  | .complex re im, .real b => re == b && im == 0.0
  | .real a, .complex re im => re == a && im == 0.0
  | .complex re im, .whole b => Number.compareInt b re == some .eq && im == 0.0
  | .whole a, .complex re im => Number.compareInt a re == some .eq && im == 0.0

/-- Order by value: `some none` if one of them is not a number, `none` if one is complex. -/
def order? : Num → Num → Option (Option Ordering)
  | .whole a, .whole b => some (some (compare a b))
  | .whole a, .real b => some (Number.compareInt a b)
  | .real a, .whole b => some ((Number.compareInt b a).map Ordering.swap)
  | .real a, .real b =>
    some (if a < b then some .lt else if b < a then some .gt else if a == b then some .eq else none)
  | _, _ => none

end Num

/-- The four order tests. -/
inductive Comparison where
  | lt
  | le
  | gt
  | ge
  deriving DecidableEq, Repr

namespace Comparison

/-- The sign of a test. -/
def sign : Comparison → String
  | .lt => "<"
  | .le => "<="
  | .gt => ">"
  | .ge => ">="

/-- Whether a test holds of operands in this order. -/
def holds : Comparison → Ordering → Bool
  | .lt, o => o == .lt
  | .le, o => o != .gt
  | .gt, o => o == .gt
  | .ge, o => o != .lt

end Comparison

namespace Datum

mutual
/-- Equality of data. -/
def same (a b : Datum) : Bool :=
  match a, b with
  | .none, .none => true
  | .str s, .str t => s == t
  | .tuple xs, .tuple ys => sameAll xs ys
  | _, _ =>
    match a.num?, b.num? with
    | some x, some y => x.same y
    | _, _ => false

/-- Equality of sequences. -/
def sameAll : List Datum → List Datum → Bool
  | [], [] => true
  | x :: xs, y :: ys => x.same y && sameAll xs ys
  | _, _ => false
end

/-- The order of two texts. -/
def textOrder (s t : String) : Ordering :=
  if s < t then .lt else if s == t then .eq else .gt

mutual
/-- An order test on data. -/
def ordered (c : Comparison) (a b : Datum) : Except Fault Bool :=
  match a, b with
  | .str s, .str t => .ok (c.holds (textOrder s t))
  | .tuple xs, .tuple ys => orderedAll c xs ys
  | _, _ =>
    match a.num?, b.num? with
    | some x, some y =>
      match x.order? y with
      | some (some o) => .ok (c.holds o)
      | some Option.none => .ok false
      | Option.none => .error (.type (.order c.sign a.kind b.kind))
    | _, _ => .error (.type (.order c.sign a.kind b.kind))

/-- An order test on sequences: the first items that differ decide, then the lengths. -/
def orderedAll (c : Comparison) : List Datum → List Datum → Except Fault Bool
  | [], [] => .ok (c.holds .eq)
  | [], _ :: _ => .ok (c.holds .lt)
  | _ :: _, [] => .ok (c.holds .gt)
  | x :: xs, y :: ys => if x.same y then orderedAll c xs ys else x.ordered c y
end

end Datum

end ScriptLang
