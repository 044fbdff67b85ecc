import ScriptLang.Number.Places
import ScriptLang.Profile.Column
import ScriptLang.Profile.Verdict
import ScriptLang.Text.Blank

/-!
Printing verdicts, and the changes of the measured code that overrule them.
-/

namespace ScriptLang.Profile

/-- The changed files in a list of changes, each after a mark of three characters. -/
def changedFiles (changes : String) : List String :=
  ((changes.splitOn "\n").filter fun l => !(Text.trim l).isEmpty).map fun l => (l.drop 3).toString

/-- How many changed files are printed. -/
def maxChanges : Nat := 10

/-- The changed files. -/
def changeLines (changes : List String) : String :=
  if changes.isEmpty then ""
  else
    "\n** repo modified (" ++ toString changes.length ++
      " file(s)) — revert these; only microbench.py is yours to edit:\n" ++
      String.join ((changes.take maxChanges).map fun f => "   " ++ f ++ "\n")

/-- What the verdicts ask for. -/
def advice : String :=
  "\nself-check (* = fix needed):\n" ++
    "  returns-none: run() has no return — collect and return the call results\n" ++
    "  unstable: seed RNG in setup; avoid time/uuid/id in the return\n" ++
    "  returns-input: return repo output, not the parameter value\n" ++
    "  low-repo-time: <50% of run() time is in repo code — move glue to setup\n" ++
    "  param-invariant: return something derived from run()'s work, not setup\n" ++
    "  repo-modified: revert edits to repo files (git checkout -- <path>)\n"

/-- The row of a bench with its verdict. -/
def findingRow (f : Finding) (v : Verdict) : String :=
  mark (!v.isSound) ++ padRight 32 f.bench ++ " " ++ padRight 16 v.name ++ " (" ++ f.kind ++
    ", repo " ++ Number.showPlaces 0 (f.share * 100.0) ++ "%) " ++ Number.showPlaces 1 f.time ++
    "ms\n"

/-- The table of verdicts, those that ask for a change first. -/
def findingTable (fs : List (Finding × Verdict)) : String :=
  if fs.isEmpty then ""
  else
    let rows (sound : Bool) : String :=
      String.join ((fs.filter fun f => f.2.isSound == sound).map fun f => findingRow f.1 f.2)
    advice ++ rows false ++ rows true

end ScriptLang.Profile
