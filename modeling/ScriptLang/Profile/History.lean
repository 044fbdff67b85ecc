import ScriptLang.Json.Basic
import ScriptLang.Number.Places
import ScriptLang.Text.Blank
import ScriptLang.Token.Scanner

/-!
The log of rounds, and when it says to stop.

Rounds stop when no bench is below the target, when the last rounds were no better than those
before, or after a number of rounds with good coverage.
-/

namespace ScriptLang.Profile.History

/-- A name character of the text that defines the benches. -/
def isWordChar (c : Char) : Bool := Scanner.isNameChar c

/-- A line that starts the definition of a bench. -/
def definesBench (line : String) : Bool :=
  let head := "def bench_"
  let name := line.toList.drop head.length
  let rest := (name.dropWhile isWordChar).dropWhile Text.isBlank
  line.startsWith head && !(name.takeWhile isWordChar).isEmpty && rest.head? == some '('

/-- The text counts this many benches. -/
def benchCount (text : String) : Nat :=
  ((text.splitOn "\n").filter definesBench).length

/-- The lines of a log. -/
def logLines (text : String) : List String :=
  (text.splitOn "\n").filter fun l => !(Text.trim l).isEmpty

/-- The coverage from which on rounds are counted. -/
def goodCover : Float := 60.0

/-- The number of the first round of a log with good coverage. -/
def firstGood? (entries : List Json) : Option Int :=
  ((entries.find? fun e => goodCover ≤ ((e.field "coverage_pct").real?).getD 0.0).bind fun e =>
    (e.field "round").int?)

/-- How many benches were below the target, one count a round. -/
def belowCounts (entries : List Json) : List Int :=
  entries.filterMap fun e => (e.field "n_below_repo_time").int?

/-- The least of some counts. -/
def leastCount : List Int → Int
  | [] => 0
  | x :: xs => xs.foldl min x

/-- How many rounds may pass without improvement. -/
def patience : Nat := 3

/-- Why no further round is worth it, by the counts of all rounds. -/
def converged? (counts : List Int) : Option String :=
  let before := counts.take (counts.length - patience)
  let recent := counts.drop (counts.length - patience)
  if counts.getLast? == some 0 then some "0 below"
  else if !before.isEmpty && leastCount before ≤ leastCount recent then
    some ("no improvement in " ++ toString patience ++ " rounds; best " ++
      toString (leastCount counts) ++ " below")
  else none

/-- The line that ends measuring when the benches do not improve. -/
def convergedLine (counts : List Int) : String :=
  match converged? counts with
  | some why =>
    "\n>>> STOP: repo_time converged (" ++ why ++ "). Finalize microbench.py now. <<<\n"
  | none => ""

/-- The line that ends measuring after too many rounds with good coverage. -/
def capLine (rounds first : Int) (share : Float) : String :=
  "\n>>> STOP: rtfb round cap reached (" ++ toString rounds ++
    " rounds after coverage first hit " ++ Number.showPlaces 0 goodCover ++ "% at round " ++
    toString first ++ "). Coverage is " ++ Number.showPlaces 0 share ++
    "%. Do NOT re-run this tool — write your final microbench.py and end the session now. <<<\n"

end ScriptLang.Profile.History
