import ScriptLang.Json.Read
import ScriptLang.Profile.Bench
import ScriptLang.Profile.CoverTable
import ScriptLang.Profile.HeatTable
import ScriptLang.Profile.History
import ScriptLang.Profile.VerdictTable

/-!
One round of measuring: what the tools found, printed as tables, and a line in the log of rounds.

A round runs the coverage tool, the profiler of the benches and the self-check, in this order, and
reads their results. It prints what they say, and says to stop when no further round is worth it.
The results of the tools, the files and the clock are given.
-/

namespace ScriptLang.Profile

/-- The result of a command. -/
structure ToolResult where
  printed : String
  complaints : String
  code : Int

/-- What a round is given. -/
structure Setting where
  files : String → Option String
  /-- The results of the commands, in order; one that could not be run raised an error. -/
  results : List (Except Raised ToolResult)
  start : Json
  stop : Json
  now : Json
  /-- The percentage of time in the measured code to aim at. -/
  target : Float
  /-- How many rounds are worth it after coverage is good, if that is limited. -/
  cap : Option Nat
  checks : Bool
  /-- The milliseconds below which a run is too fast. -/
  minTime : Float

/-- What a round leaves. -/
structure Round where
  printed : String
  complaints : String
  commands : List (List String)
  /-- The log of rounds. -/
  log : Option String
  deriving Inhabited

/-- How a round ends early. -/
inductive Ending where
  | exit (code : Int)
  | raised (error : Raised)

namespace Round

/-- The files of a round. -/
def coverageFile : String := "/repo/_pti_coverage.json"

def hotspotTool : String := "/repo/_pti_repotime.py"

def checkTool : String := "/repo/_pti_semcheck.py"

def benchFile : String := "/repo/microbench.py"

def logFile : String := "/repo/.pti_checkpoint.jsonl"

/-- The patterns of files that do not count for coverage. -/
def omitted : List String :=
  ["*/microbench.py", "*/_pti_*.py", "*/setup.py", "*/conftest.py", "*/test_*.py", "*/*_test.py",
    "*/tests/*", "*/test/*", "*/__tests__/*", "*/__fixtures__/*", "*/_version.py"]

/-- The commands of a round. -/
def coverageCommand : List String :=
  ["/repo/_pti_cov_runner.py", "/repo", "microbench", coverageFile,
    (Json.arr (omitted.map Json.str)).text]

def changesCommand : List String :=
  ["git", "-C", "/repo", "status", "--porcelain", "--", ".", ":!microbench.py", ":!_pti_*",
    ":!.pti_*", ":!.coverage"]

open History

/-- What is left of the results of commands while a round runs. -/
structure Progress where
  results : List (Except Raised ToolResult)
  round : Round

/-- A part of a round. -/
abbrev Measure := EStateM Ending Progress

/-- Runs a command; without a result left it prints nothing. -/
def call (command : List String) : Measure (Except Raised ToolResult) := fun p =>
  let p := { p with round := { p.round with commands := p.round.commands ++ [command] } }
  match p.results with
  | [] => .ok (.ok ⟨"", "", 0⟩) p
  | r :: rest => .ok r { p with results := rest }

/-- Prints a text. -/
def print (s : String) : Measure Unit :=
  modify fun p => { p with round := { p.round with printed := p.round.printed ++ s } }

/-- Passes on what a command complained about. -/
def complain (s : String) : Measure Unit :=
  modify fun p => { p with round := { p.round with complaints := p.round.complaints ++ s } }

/-- Runs a tool that prints a report on its last line; without a report its result is empty. -/
def report (command : List String) : Measure Json := do
  match ← call command with
  | .error _ => return .obj []
  | .ok c =>
    complain c.complaints
    let last := ((c.printed.splitOn "\n").filter fun l => !(Text.trim l).isEmpty).getLast?
    return (last.bind Json.parse?).getD (.obj [])

/-- Runs the coverage tool and reads its report. -/
def cover (s : Setting) : Measure Cover := do
  match ← call coverageCommand with
  | .error e => throw (.raised e)
  | .ok c =>
    complain c.complaints
    match s.files coverageFile, c.code with
    | some text, 0 => return Cover.ofJson ((Json.parse? text).getD (.obj []))
    | _, code =>
      print ("coverage measurement failed (exit " ++ toString code ++ ")\n" ++ c.printed ++ "\n")
      throw (.exit (if code == 0 then 1 else code))

/-- Runs the profiler of the benches if there is one. -/
def heat (s : Setting) : Measure (List Heat) := do
  if (s.files hotspotTool).isNone then return []
  return Heat.ofJson (← report [hotspotTool])

/-- Runs the self-check if there is one: the changed files, and the verdicts. -/
def check (s : Setting) : Measure (List String × List (Finding × Verdict)) := do
  if !s.checks || (s.files checkTool).isNone then return ([], [])
  let changes :=
    match ← call changesCommand with
    | .error _ => []
    | .ok c => changedFiles c.printed
  let found ← report [checkTool]
  let findings := (found.field "semcheck").fields.filterMap fun f => Finding.ofJson? f.1 f.2
  return (changes, findings.map fun f =>
    (f, if changes.isEmpty then f.verdict s.minTime else .modified))

/-- The difference of two times. -/
def elapsed (later earlier : Json) : Float :=
  (later.real?).getD 0.0 - (earlier.real?).getD 0.0

/-- The entry of a round in the log. -/
def entry (s : Setting) (number : Nat) (previous : Option Json) (c : Cover) (hs : List Heat)
    (fs : List (Finding × Verdict)) : Json :=
  let wait :=
    match previous with
    | some e => elapsed s.now (e.field "ts")
    | none => 0.0
  .obj [("round", .int number), ("ts", s.now),
    ("wall_since_prev_s", .real (Number.roundPlaces 2 wait)), ("coverage_pct", c.percent),
    ("covered_lines", c.covered), ("num_statements", c.statements),
    ("n_bench_fns", .int (benchCount ((s.files benchFile).getD ""))),
    ("n_bench_errors", .int c.errors.length),
    ("cov_measure_s", .real (Number.roundPlaces 3 (elapsed s.stop s.start))),
    ("repo_time_pct", .obj (hs.map fun h => (h.bench, .real h.percent))),
    ("n_below_repo_time",
      if hs.isEmpty then .null else .int (hs.filter (Heat.isBelow s.target)).length),
    ("semcheck", .obj (fs.map fun f => (f.1.bench, .str f.2.name))),
    ("n_not_self_checking", .int (fs.filter fun f => !f.2.isSound).length)]

/-- The line that sums a round up. -/
def summary (s : Setting) (number : Nat) (c : Cover) (hs : List Heat)
    (fs : List (Finding × Verdict)) : String :=
  let known := hs.filter Heat.isKnown
  "\n[round " ++ toString number ++ ": " ++
    toString (benchCount ((s.files benchFile).getD "")) ++ " benches, " ++
    Number.showPlaces 1 c.share ++ "% covered, " ++
    (if hs.isEmpty then ""
      else
        toString (known.filter (Heat.isBelow s.target)).length ++ "/" ++ toString known.length ++
          " below repo_time " ++ Number.showPlaces 0 (s.target - Heat.slack) ++ "%, ") ++
    (if fs.isEmpty then ""
      else
        toString (fs.filter fun f => !f.2.isSound).length ++ "/" ++ toString fs.length ++
          " not self-checking, ") ++
    "measured in " ++ Number.showPlaces 1 (elapsed s.stop s.start) ++ "s]\n"

/-- Ends a round whose log shows too many rounds since coverage was good. -/
def stopAtCap (s : Setting) (number : Nat) (entries : List Json) (share : Float) :
    Measure Unit := do
  match s.cap, firstGood? entries with
  | some cap, some first =>
    if (cap : Int) ≤ (number : Int) - first then
      print (capLine (number - first) first share)
      throw (.exit 0)
  | _, _ => return

/-- One round. A log that cannot be read is left as it is, and does not end measuring. -/
def measure (s : Setting) : Measure Unit := do
  let c ← cover s
  let hs ← heat s
  let (changes, fs) ← check s
  let old := (s.files logFile).getD ""
  let number := (logLines old).length + 1
  let entries : List Json :=
    match (logLines old).mapM Json.parse? with
    | some past => past ++ [entry s number past.getLast? c hs fs]
    | none => []
  if let some last := entries.getLast? then
    modify fun p => { p with round := { p.round with log := some (old ++ last.text ++ "\n") } }
  print c.table
  stopAtCap s number entries c.share
  print (c.errorLines ++ Heat.table s.target hs ++ changeLines changes ++ findingTable fs ++
    summary s number c hs fs ++
    (if hs.isEmpty then "" else convergedLine (belowCounts entries)))

/-- Runs a round: what it leaves, and how it ended early if it did. -/
def run (s : Setting) : Round × Option Ending :=
  match measure s ⟨s.results, ⟨"", "", [], s.files logFile⟩⟩ with
  | .ok _ p => (p.round, none)
  | .error e p => (p.round, some e)

end Round

end ScriptLang.Profile
