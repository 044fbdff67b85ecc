import ScriptLang.Json.Basic

/-!
Judging benches by their self-check reports.

A bench is sound if its product is there, is the same for the same call, depends on the parameters,
is not itself a parameter, and takes its time in the measured code. The first rule that a bench
breaks is its verdict.
-/

namespace ScriptLang.Profile

/-- What is found about a bench. -/
inductive Verdict where
  | failed
  | returnsNone
  | unstable
  | returnsInput
  | lowShare
  | tooFast
  | invariant
  /-- The measured code was changed, so that no report counts. -/
  | modified
  /-- Sound, with fewer than two parameter sets to compare. -/
  | soundUnvaried
  | sound
  deriving DecidableEq, Repr

namespace Verdict

/-- The name of a verdict. -/
def name : Verdict → String
  | .failed => "error"
  | .returnsNone => "returns-none"
  | .unstable => "unstable"
  | .returnsInput => "returns-input"
  | .lowShare => "low-repo-time"
  | .tooFast => "too-fast"
  | .invariant => "param-invariant"
  | .modified => "repo-modified"
  | .soundUnvaried => "ok-unparam"
  | .sound => "ok"

/-- A verdict that asks for no change. -/
def isSound (v : Verdict) : Bool :=
  v == .sound || v == .soundUnvaried

end Verdict

/-- The middle of some numbers, the mean of two in the middle; zero of none. -/
def median (xs : List Float) : Float :=
  let sorted := xs.mergeSort (· ≤ ·)
  let n := sorted.length
  if n == 0 then 0.0
  else if n % 2 == 1 then sorted.getD (n / 2) 0.0
  else (sorted.getD (n / 2 - 1) 0.0 + sorted.getD (n / 2) 0.0) / 2.0

/-- The least of some numbers; zero of none. -/
def least : List Float → Float
  | [] => 0.0
  | x :: xs => xs.foldl (fun m y => if y < m then y else m) x

/-- What a self-check report says of one bench. -/
structure Finding where
  bench : String
  /-- The type of the product, if the report gives one. -/
  kind : String
  stable : List String
  byParam : List String
  /-- The milliseconds in the measured code, one a call. -/
  times : List Float
  /-- The part of the time in the measured code, one a call. -/
  shares : List Float
  params : List String

namespace Finding

/-- The texts of an array of strings. -/
def texts (items : List Json) : List String :=
  items.filterMap Json.str?

/-- The numbers among the fields of an object. -/
def numbers (j : Json) : List Float :=
  j.fields.filterMap fun f => f.2.real?

/-- Reads the report on a bench; what is no object is no report. -/
def ofJson? (bench : String) (j : Json) : Option Finding :=
  if j.isObj then
    some ⟨bench, ((j.field "ret_type").str?).getD "?", texts (j.field "fp_stable").items,
      texts ((j.field "fp_by_param").fields.map Prod.snd), numbers (j.field "repo_tt_ms"),
      numbers (j.field "repo_frac"), texts (j.field "param_fps").items⟩
  else none

/-- The milliseconds of a call in the measured code. -/
def time (f : Finding) : Float := median f.times

/-- The part of a call's time in the measured code, at its least. -/
def share (f : Finding) : Float := least f.shares

/-- The run failed: no type, or the name of an error in its place. -/
def hasFailed (f : Finding) : Bool :=
  f.kind == "?" || f.kind.startsWith "<"

/-- Two runs with defaults had the same product. -/
def isStable (f : Finding) : Bool :=
  match f.stable with
  | [a, b] => a == b
  | _ => false

/-- All products have one fingerprint. -/
def isInvariant (f : Finding) : Bool :=
  match f.byParam with
  | [] => true
  | p :: ps => ps.all (· == p)

/-- The first rule that a bench breaks; runs under `minTime` milliseconds are too fast to judge. -/
def verdict (minTime : Float) (f : Finding) : Verdict :=
  if f.hasFailed then .failed
  else if f.kind == "NoneType" then .returnsNone
  else if !f.isStable then .unstable
  else if f.stable.any f.params.contains then .returnsInput
  else if !f.shares.isEmpty && f.share < 0.5 then .lowShare
  else if !f.times.isEmpty && f.time < minTime then .tooFast
  else if f.byParam.length < 2 then .soundUnvaried
  else if f.isInvariant then .invariant
  else .sound

end Finding

end ScriptLang.Profile
