import ScriptLang.Json.Basic
import ScriptLang.Number.Places
import ScriptLang.Profile.Column
import ScriptLang.Profile.Path

/-!
Coverage reports, and the table printed from one.

The table has a row for each file, the least covered first, and one for the whole. Long names and
long lists of missing lines are cut.
-/

namespace ScriptLang.Profile

/-- The coverage of one file. -/
structure FileCover where
  name : String
  statements : Int
  missed : Int
  percent : Float
  missing : List String

namespace FileCover

/-- The longest name that is printed whole. -/
def nameWidth : Nat := 60

/-- How many missing lines are printed. -/
def maxMissing : Nat := 12

/-- Reads the report on a file. -/
def ofJson (path : String) (j : Json) : FileCover :=
  let summary := j.field "summary"
  ⟨((Path.fromHome path).take nameWidth).toString, ((summary.field "num_statements").int?).getD 0,
    ((summary.field "missing_lines").int?).getD 0,
    ((summary.field "percent_covered").real?).getD 0.0,
    (j.field "missing_lines").items.map Json.text⟩

/-- The first columns of a row. -/
def columns (width : Nat) (name : String) (statements missed : Int) (percent : Float) : String :=
  padRight width name ++ "  " ++ padLeft 5 (toString statements) ++ "  " ++
    padLeft 4 (toString missed) ++ "  " ++ padLeft 4 (Number.showPlaces 0 percent) ++ "%"

/-- The row of a file. -/
def row (width : Nat) (c : FileCover) : String :=
  columns width c.name c.statements c.missed c.percent ++ "  " ++
    ",".intercalate (c.missing.take maxMissing) ++
    (if maxMissing < c.missing.length then "…" else "") ++ "\n"

end FileCover

/-- The coverage of a round. -/
structure Cover where
  files : List FileCover
  percent : Json
  covered : Json
  statements : Json
  /-- What went wrong in the benches. -/
  errors : Table Json

namespace Cover

/-- Reads a coverage report. -/
def ofJson (j : Json) : Cover :=
  let totals := j.field "totals"
  ⟨(j.field "files").fields.map fun f => FileCover.ofJson f.1 f.2,
    (totals.field? "percent_covered").getD (.real 0.0),
    (totals.field? "covered_lines").getD (.int 0),
    (totals.field? "num_statements").getD (.int 0),
    ((j.field "meta").field "_pti_bench_errors").fields⟩

/-- The percentage of statements covered. -/
def share (c : Cover) : Float := (c.percent.real?).getD 0.0

/-- The table of files, the least covered first, and of the whole. -/
def table (c : Cover) : String :=
  let width := c.files.foldl (fun w f => max w f.name.length) 4
  let rule := String.ofList (List.replicate (width + 42) '-') ++ "\n"
  let statements := (c.statements.int?).getD 0
  padRight width "Name" ++ "  Stmts  Miss  Cover  Missing\n" ++ rule ++
    String.join ((c.files.mergeSort fun a b => a.percent ≤ b.percent).map (FileCover.row width)) ++
    rule ++
    FileCover.columns width "TOTAL" statements (statements - (c.covered.int?).getD 0) c.share ++
    "\n"

/-- How many errors of benches are printed. -/
def maxErrors : Nat := 8

/-- The errors of the benches. -/
def errorLines (c : Cover) : String :=
  if c.errors.isEmpty then ""
  else
    "\n" ++ toString c.errors.length ++ " bench error(s):\n" ++
      String.join ((c.errors.take maxErrors).map fun e =>
        "  " ++ e.1 ++ ": " ++ (e.2.str?).getD e.2.text ++ "\n")

end Cover

end ScriptLang.Profile
