import ScriptLang.Table

/-!
Scopes.

A scope binds names of variables and of functions, and may lie inside another one. All scopes of a
run are kept in one forest, where each is known by its number; a scope lies only inside scopes with
smaller numbers. A name can be bound to no value: a look-up passes over such a binding, an
assignment does not.
-/

namespace ScriptLang

/-- One scope: its bindings, and the scope around it. -/
structure Scope (V F : Type) where
  vars : Table (Option V)
  funcs : Table (Option F)
  parent : Option Nat
  deriving Inhabited

/-- All scopes of a run. -/
structure Forest (V F : Type) where
  scopes : Array (Scope V F)
  deriving Inhabited

namespace Forest

variable {V F : Type}

/-- One scope without bindings, number zero. -/
def root : Forest V F := ⟨#[⟨[], [], none⟩]⟩

/-- The scope around scope `i`. -/
def parent? (f : Forest V F) (i : Nat) : Option Nat :=
  (f.scopes[i]?).bind Scope.parent

/-- The number of the nearest scope, from `i` outward, that satisfies a test. -/
def nearest? (f : Forest V F) (p : Scope V F → Bool) (i : Nat) : Option Nat :=
  match f.scopes[i]? with
  | none => none
  | some s =>
    if p s then some i
    else
      match s.parent with
      | none => none
      | some j => if j < i then f.nearest? p j else none
termination_by i

/-- The value of a variable, seen from scope `i`. -/
def getVar (f : Forest V F) (i : Nat) (name : String) : Option V :=
  match f.nearest? (fun s => (s.vars.lookup? name).join.isSome) i with
  | none => none
  | some j => (f.scopes[j]?).bind fun s => (s.vars.lookup? name).join

/-- The function under a name, seen from scope `i`. -/
def getFunc (f : Forest V F) (i : Nat) (name : String) : Option F :=
  match f.nearest? (fun s => (s.funcs.lookup? name).join.isSome) i with
  | none => none
  | some j => (f.scopes[j]?).bind fun s => (s.funcs.lookup? name).join

/-- Binds a variable in scope `i` itself. -/
def setLocal (f : Forest V F) (i : Nat) (name : String) (value : Option V) : Forest V F :=
  ⟨f.scopes.modify i fun s => { s with vars := s.vars.put name value }⟩

/-- The scope in which an assignment seen from scope `i` takes place, if one binds the name. -/
def holder? (f : Forest V F) (i : Nat) (name : String) : Option Nat :=
  f.nearest? (fun s => s.vars.has name) i

/-- Assigns to the nearest binding of a variable, or binds it in scope `i`. -/
def setVar (f : Forest V F) (i : Nat) (name : String) (value : Option V) : Forest V F :=
  f.setLocal ((f.holder? i name).getD i) name value

/-- Binds a function in scope `i`. -/
def setFunc (f : Forest V F) (i : Nat) (name : String) (value : Option F) : Forest V F :=
  ⟨f.scopes.modify i fun s => { s with funcs := s.funcs.put name value }⟩

/-- A new scope inside scope `i`, and its number. -/
def child (f : Forest V F) (i : Nat) : Nat × Forest V F :=
  (f.scopes.size, ⟨f.scopes.push ⟨[], [], some i⟩⟩)

end Forest

end ScriptLang
