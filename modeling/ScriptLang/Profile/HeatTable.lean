import ScriptLang.Json.Basic
import ScriptLang.Number.Places
import ScriptLang.Profile.Column

/-!
Reports on the time spent in the measured code, and the table printed from one.

Benches that stay more than the slack below the target are starred, and the places where they spend
the rest of their time are named.
-/

namespace ScriptLang.Profile

/-- The percentage of a bench's time in the measured code, and where else it goes. -/
structure Heat where
  bench : String
  /-- Negative if the bench failed. -/
  percent : Float
  places : List (Float × String)

namespace Heat

/-- How far below the target is still accepted, in percent. -/
def slack : Float := 5.0

/-- The bench ran. -/
def isKnown (h : Heat) : Bool := 0.0 ≤ h.percent

/-- The bench ran and stays below the accepted percentage. -/
def isBelow (target : Float) (h : Heat) : Bool :=
  h.isKnown && h.percent < target - slack

/-- Reads the report of the profiler. -/
def ofJson (j : Json) : List Heat :=
  (j.field "repo_time_pct").fields.map fun f =>
    let places := ((j.field "hot_ext").field f.1).items.filterMap fun p =>
      match p with
      | .arr [x, name] => x.real?.map fun x => (x, (name.str?).getD name.text)
      | _ => none
    ⟨f.1, (f.2.real?).getD 0.0, places⟩

/-- The places of a bench that is below the target. -/
def placesText (h : Heat) : String :=
  if h.places.isEmpty then ""
  else
    " (hot: " ++
      " ".intercalate (h.places.map fun p => p.2 ++ " " ++ Number.showPlaces 0 p.1 ++ "%") ++ ")"

/-- The row of a bench. -/
def row (target : Float) (h : Heat) : String :=
  let starred := h.isBelow target
  mark starred ++ padRight 32 h.bench ++ " " ++
    padLeft 5 (Number.showPlaces 1 (if h.isKnown then h.percent else 0.0)) ++ "%" ++
    (if h.isKnown then "" else "  <error>") ++ (if starred then h.placesText else "") ++ "\n"

/-- The table of benches, the least percentage first. -/
def table (target : Float) (hs : List Heat) : String :=
  if hs.isEmpty then ""
  else
    "\nrepo_time (target " ++ Number.showPlaces 0 target ++ "%; * = below " ++
      Number.showPlaces 0 (target - slack) ++ "%):\n" ++
      String.join ((hs.mergeSort fun a b => a.percent ≤ b.percent).map (row target))

end Heat

end ScriptLang.Profile
