import ScriptLang.Profile.SelfCheck

/-!
How much of each bench's time is spent in the measured code, and where the rest goes.
-/

namespace ScriptLang.Profile.Hotspot

/-- The share given for a bench that ended early. -/
def noShare : Float := -1.0

/-- How many places outside the measured code are named for a bench. -/
def maxPlaces : Nat := 3

/-- The place outside the measured code that a row belongs to: the directory of its file. -/
def place (r : Row) : String :=
  if r.file == "~" then "builtins"
  else ((r.file.splitOn "/").dropLast.getLast?).getD r.file

/-- Some seconds as a percentage of a bench's profile. -/
def percent (b : Bench) (seconds : Float) : Float :=
  Number.roundPlaces 1 (100.0 * b.part seconds)

/-- The percentage of a bench's time in the measured code. -/
def share (b : Bench) : Float :=
  match b.mishap with
  | some _ => noShare
  | none => percent b (b.seconds Row.isOwn)

/-- A row outside the measured directory. -/
def isOutside (r : Row) : Bool :=
  !r.file.startsWith Row.homeText && 0.0 < r.seconds

/-- The places outside where a bench spends most, with their percentages. -/
def places (b : Bench) : List Json :=
  match b.mishap with
  | some _ => []
  | none =>
    let sums : Table Float := (b.rows.filter isOutside).foldl (fun (t : Table Float) r =>
      t.put (place r) ((t.lookup? (place r)).getD 0.0 + r.seconds)) []
    ((sums.mergeSort fun a b => b.2 ≤ a.2).take maxPlaces).map fun s =>
      .arr [.real (percent b s.2), .str s.1]

/-- The report on all benches. -/
def report : Loaded → Json
  | .error e => loadReport e
  | .ok benches =>
    let benches := Bench.select benches
    .obj [("repo_time_pct", .obj (benches.map fun b => (b.name, .real (share b)))),
      ("hot_ext", .obj (benches.map fun b => (b.name, .arr (places b))))]

end ScriptLang.Profile.Hotspot
