import ScriptLang.Profile.Share

/-!
Checking benches by their products.

Each bench is run twice with its defaults and once with each of its parameter sets. The report
holds the fingerprints of the products and of the parameters, and for each call under the profiler
the time in the measured code.
-/

namespace ScriptLang.Profile

/-- The benches of a module, or why it cannot be loaded. -/
abbrev Loaded := Except Raised (List Bench)

/-- What is printed in place of a report when the benches cannot be loaded. -/
def loadReport (e : Raised) : Json :=
  .obj [("_import_error", .str e.shown)]

namespace SelfCheck

/-- The label of the call with defaults. -/
def defaultLabel : String := "<default>"

/-- The label of a call with parameters. -/
def label (params : Table Product) : String :=
  if params.isEmpty then "-"
  else ",".intercalate (params.map fun p => p.1 ++ "=" ++ p.2.plain)

/-- The report on one bench, from its parts. -/
def entry (kind : String) (stable : List String) (byParam : Table Json)
    (times owns compiled : Table Json) (params : List String) : Json :=
  .obj [("ret_type", .str kind), ("fp_stable", .arr (stable.map Json.str)),
    ("fp_by_param", .obj byParam), ("repo_tt_ms", .obj times), ("repo_frac", .obj owns),
    ("ext_frac", .obj compiled), ("param_fps", .arr (params.map Json.str))]

/-- The report on a bench that ended early. -/
def failedEntry (kind : String) : Json :=
  entry ("<" ++ kind ++ ">") [] [] [] [] [] []

/-- The report on one bench. -/
def ofBench (b : Bench) : Json :=
  match b.mishap with
  | some (.raised e) => failedEntry e.kind
  | some .timeout => failedEntry "timeout"
  | none =>
    let labels := b.params.map label
    let prints : Table Json := (labels.zipIdx 2).foldl (fun (t : Table Json) l =>
      t.put l.1 (.str (b.product l.2).fingerprint)) []
    let each (x : Float) : Table Json :=
      (defaultLabel :: labels).foldl (fun (t : Table Json) l => t.put l (.real x)) []
    let own := b.seconds Row.isOwn
    entry (b.product 0).kind [(b.product 0).fingerprint, (b.product 1).fingerprint] prints
      (each (Number.roundPlaces 3 (own * 1000.0))) (each (Number.roundPlaces 3 (b.part own)))
      (each (Number.roundPlaces 3 (b.part (b.seconds Row.isCompiled))))
      (b.params.flatMap fun ps => ps.map fun p => p.2.fingerprint)

/-- The report on all benches. -/
def report : Loaded → Json
  | .error e => loadReport e
  | .ok benches =>
    .obj [("semcheck", .obj ((Bench.select benches).map fun b => (b.name, ofBench b)))]

end SelfCheck

end ScriptLang.Profile
