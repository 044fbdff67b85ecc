import ScriptLang.Json.Read
import ScriptLang.Profile.Path
import ScriptLang.Profile.SelfCheck

/-!
Running all benches under a coverage tool.

The tool is switched on around the loading and running of the benches and asked for a report, to
which the errors of the benches are added.
-/

namespace ScriptLang.Profile.Coverage

/-- What a run is asked for. -/
structure Request where
  /-- The directory whose files count. -/
  root : String
  /-- Where the report is written. -/
  target : String
  /-- The patterns of files that do not count. -/
  omitted : Json

/-- The name under which an error of loading the benches is kept. -/
def loadName : String := "<import>"

/-- The errors of the benches, by name. -/
def errors : Loaded → Table Json
  | .error e => [(loadName, .str e.shown)]
  | .ok benches =>
    (Bench.select benches).filterMap fun b =>
      match b.mishap with
      | some (.raised e) => some (b.name, .str e.shown)
      | _ => none

/-- How many benches there are. -/
def count : Loaded → Nat
  | .error _ => 0
  | .ok benches => (Bench.select benches).length

/-- A report with the errors of the benches among its remarks. -/
def annotate (l : Loaded) (report : Json) : Json :=
  let remarks : Table Json := (report.field "meta").fields
  let remarks := remarks.put "_pti_bench_errors" (.obj (errors l))
  let remarks := remarks.put "_pti_n_benches" (.int (count l))
  .obj (report.fields.put "meta" (.obj remarks))

/-- The line that is printed at the end. -/
def summary (l : Loaded) (report : Json) : String :=
  let totals := report.field "totals"
  let number (name : String) : String := toString (((totals.field name).int?).getD 0)
  let percent := ((totals.field "percent_covered").real?).getD 0.0
  "coverage: " ++ Number.showPlaces 1 percent ++ "% (" ++
    number "covered_lines" ++ "/" ++ number "num_statements" ++ " stmts, " ++ toString (count l) ++
    " benches, " ++ toString (errors l).length ++ " errors)\n"

/-- What a run leaves: the directory the tool watched, the report and the printed line. -/
structure Result where
  source : String
  report : String
  printed : String

/-- Runs the benches; `raw` is the report that the tool writes. -/
def run (r : Request) (l : Loaded) (raw : String) : Result :=
  let report := (Json.parse? raw).getD (.obj [])
  ⟨Path.text (Path.resolve r.root), (annotate l report).text, summary l report⟩

end ScriptLang.Profile.Coverage
