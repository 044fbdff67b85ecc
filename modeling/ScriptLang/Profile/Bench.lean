import ScriptLang.Datum.Basic
import ScriptLang.Digest.Sha256
import ScriptLang.Json.Basic

/-!
Benches: what is known of each function that is measured.

A bench is a function that prepares some work and gives it back to be run, or does the work at
once. Here a bench is described by what happens when it is called: the values of its runs, one after
the other, what it raises, and the rows of its profile.
-/

namespace ScriptLang.Profile

/-- What the run of a bench returns. -/
inductive Product where
  | datum (value : Datum)
  | list (items : List Product)
  deriving Inhabited

namespace Product

/-- The name of the type of a product. -/
def kind : Product → String
  | .datum d => d.kind
  | .list _ => "list"

mutual

/-- A product as it is shown inside another. -/
def shown : Product → String
  | .datum d => d.shown
  | .list items => "[" ++ ", ".intercalate (shownAll items) ++ "]"

/-- Products, each shown. -/
def shownAll : List Product → List String
  | [] => []
  | p :: rest => p.shown :: shownAll rest

end

/-- A product standing alone: a text is not quoted. -/
def plain : Product → String
  | .datum d => d.plain
  | p => p.shown

mutual

/-- The text of a datum whose digest is its fingerprint. A text is marked, so that it differs from
what it may spell, and a sequence starts with its length. -/
def datumForm : Datum → String
  | .str s => "s" ++ s
  | .tuple items => "L" ++ toString items.length ++ datumForms items
  | d => d.shown

/-- The texts of some data, one after the other. -/
def datumForms : List Datum → String
  | [] => ""
  | d :: rest => datumForm d ++ datumForms rest

end

mutual

/-- The text whose digest is the fingerprint of a product. -/
def form : Product → String
  | .datum d => datumForm d
  | .list items => "L" ++ toString items.length ++ forms items

/-- The texts of some products, one after the other. -/
def forms : List Product → String
  | [] => ""
  | p :: rest => p.form ++ forms rest

end

/-- Two products with the same fingerprint are taken for the same. -/
def fingerprint (p : Product) : String :=
  Digest.ofString p.form

end Product

/-- An error by the name of its class, with what it was raised with. -/
structure Raised where
  kind : String
  argument : Datum
  deriving Inhabited

/-- What an error says; a missing key is quoted. -/
def Raised.message (r : Raised) : String :=
  if r.kind == "KeyError" then r.argument.shown else r.argument.plain

/-- An error with its class. -/
def Raised.shown (r : Raised) : String :=
  r.kind ++ ": " ++ r.message

/-- A row of a profile: the time spent in one function itself. -/
structure Row where
  file : String
  function : String
  seconds : Float

/-- How running a bench ends early. -/
inductive Mishap where
  | raised (error : Raised)
  | timeout

/-- One bench. -/
structure Bench where
  name : String
  /-- The name may be bound to what cannot be called. -/
  callable : Bool
  /-- What successive runs return; the last one repeats. -/
  values : List Product
  /-- What goes wrong each time it is called or run. -/
  mishap : Option Mishap
  /-- The arguments it is called with besides the defaults. -/
  params : List (Table Product)
  rows : List Row
  /-- The seconds of the whole profile. -/
  total : Float

namespace Bench

/-- What run number `n` returns. -/
def product (b : Bench) (n : Nat) : Product :=
  (b.values[n]?).getD (b.values.getLast?.getD (.datum .none))

/-- The benches among what a module binds, by name. -/
def select (benches : List Bench) : List Bench :=
  (benches.filter fun b => b.callable && b.name.startsWith "bench_").mergeSort
    fun a b => a.name ≤ b.name

end Bench

end ScriptLang.Profile
