/-!
Sets of code points, kept as sorted disjoint ranges and searched by halving.

The tables are written as runs: how many code points are left out and how many follow that belong to
the set, by turns.
-/

namespace ScriptLang.Text

/-- A set of code points as inclusive ranges in increasing order. -/
structure Ranges where
  pairs : Array (Nat × Nat)

namespace Ranges

/-- The ranges of some runs, with the first code point that they are about. -/
def pairsOf (first : Nat) : List Nat → List (Nat × Nat)
  | out :: run :: runs =>
    (first + out, first + out + run - 1) :: pairsOf (first + out + run) runs
  | _ => []

/-- The set with the given runs beyond ASCII. -/
def ofRuns (runs : List Nat) : Ranges := ⟨(pairsOf 128 runs).toArray⟩

/-- Searches the ranges with index from `lo` up to, but not including, `hi`. -/
def search (r : Ranges) (n lo hi : Nat) : Option (Nat × Nat) :=
  if lo < hi then
    let mid := lo + (hi - lo) / 2
    match r.pairs[mid]? with
    | none => none
    | some (first, last) =>
      if n < first then r.search n lo mid
      else if last < n then r.search n (mid + 1) hi
      else some (first, last)
  else none
termination_by hi - lo

/-- The range that holds `n`, if one does. -/
def find? (r : Ranges) (n : Nat) : Option (Nat × Nat) :=
  r.search n 0 r.pairs.size

/-- Membership of a code point. -/
def contains (r : Ranges) (n : Nat) : Bool :=
  (r.find? n).isSome

end Ranges

end ScriptLang.Text
