import ScriptLang.Proofs.Eval.Fuel
import ScriptLang.Proofs.Simulation.World

/-!
Expressions without calls on both engines.

Such an expression is evaluated without any change to the scopes. Its code runs from every state of
the machine in which the loads of its variables give their values, and leaves frames and globals as
they are.
-/

namespace ScriptLang

mutual
/-- An expression and all expressions inside it. -/
def Expr.parts : Expr → List Expr
  | .unary op operand line => .unary op operand line :: operand.parts
  | .binary op left right line => .binary op left right line :: (left.parts ++ right.parts)
  | .logical op left right line => .logical op left right line :: (left.parts ++ right.parts)
  | .group inner line => .group inner line :: inner.parts
  | .call f args line => .call f args line :: Expr.partsOf args
  | e => [e]

def Expr.partsOf : List Expr → List Expr
  | [] => []
  | e :: es => e.parts ++ Expr.partsOf es
end

theorem Expr.mem_parts (e : Expr) : e ∈ e.parts := by
  cases e <;> simp [Expr.parts]

/-- An expression is a call. -/
def Expr.isCall : Expr → Bool
  | .call _ _ _ => true
  | _ => false

/-! ### Evaluation without changes -/

namespace Eval

variable {α β : Type} {x : Eval α} {k : α → Eval β}

/-- A computation that changes nothing if it yields a value. -/
def Reads (x : Eval α) : Prop := ∀ st a st', x st = .ok a st' → st' = st

theorem reads_pure (a : α) : Reads (pure a : Eval α) := fun _ _ _ done =>
  (pure_eq_ok.mp done).2.symm

theorem reads_throw (e : Stop) : Reads (throw e : Eval α) := fun _ _ _ done =>
  absurd done throw_ne_ok

theorem Reads.bind (first : Reads x) (rest : ∀ a, Reads (k a)) : Reads (x >>= k) := by
  intro st b st' done
  obtain ⟨a, st₁, done₁, done₂⟩ := bind_eq_ok.mp done
  rw [rest a _ _ _ done₂, first _ _ _ done₁]

theorem reads_demand (o : Option Value) : Reads (demand o) := by
  cases o with
  | none => exact reads_throw _
  | some v => exact reads_pure v

theorem reads_binary (op : Token) (a b : Value) (line : Line) : Reads (binary op a b line) := by
  unfold binary
  split
  · exact reads_pure none
  · split
    · exact reads_throw _
    · split
      · exact reads_pure _
      · exact reads_throw _
      · exact reads_throw _

theorem reads_unary (op : Token) (v : Value) : Reads (unary op v) := by
  unfold unary
  split
  · split
    · exact reads_pure _
    · exact reads_throw _
    · exact reads_throw _
  · split
    · exact reads_pure _
    · exact reads_throw _
  · split
    · exact reads_pure _
    · exact reads_throw _
  · exact reads_pure none

/-- An expression without calls changes nothing. -/
theorem reads_expr (fuel σ : Nat) (e : Expr) (callFree : e.all (fun x => !x.isCall) = true) :
    Reads (expr fuel σ e) := by
  induction fuel generalizing e with
  | zero =>
    rw [expr]
    exact reads_throw _
  | succ fuel ih =>
    cases e with
    | integer value line =>
      rw [expr]
      split
      · exact reads_pure _
      · exact reads_throw _
    | real | text | bool =>
      rw [expr]
      exact reads_pure _
    | name n line =>
      intro st r st' done
      rw [expr] at done
      obtain ⟨v, found, -⟩ := map_eq_ok.mp done
      exact (lookup_eq_ok found).2
    | group inner line =>
      simp only [Expr.all, Bool.and_eq_true] at callFree
      rw [expr]
      exact ih inner callFree.2
    | unary op operand line =>
      simp only [Expr.all, Bool.and_eq_true] at callFree
      rw [expr]
      exact (ih operand callFree.2).bind fun _ => (reads_demand _).bind fun _ => reads_unary _ _
    | binary op left right line =>
      simp only [Expr.all, Bool.and_eq_true] at callFree
      rw [expr]
      exact (ih left callFree.1.2).bind fun _ => (reads_demand _).bind fun _ =>
        (ih right callFree.2).bind fun _ => (reads_demand _).bind fun _ => reads_binary _ _ _ _
    | logical op left right line =>
      simp only [Expr.all, Bool.and_eq_true] at callFree
      rw [expr]
      refine (ih left callFree.1.2).bind fun _ => (reads_demand _).bind fun a => ?_
      split
      · exact reads_pure _
      · exact ih right callFree.2
    | call n args line => simp [Expr.all, Expr.isCall] at callFree

/-- Only an operation of its own yields a value. -/
theorem ofKind?_of_binary {op : Token} {a b v : Value} {line : Line} {st st' : Store}
    (done : binary op a b line st = .ok (some v) st') : ∃ o, BinaryOp.ofKind? op.kind = some o := by
  unfold binary at done
  cases known : BinaryOp.ofKind? op.kind with
  | none =>
    rw [known] at done
    cases done
  | some o => exact ⟨o, rfl⟩

theorem kind_of_unary {op : Token} {v r : Value} {st st' : Store}
    (done : unary op v st = .ok (some r) st') :
    op.kind = .minus ∨ op.kind = .plus ∨ op.kind = .tilde := by
  cases kind : op.kind with
  | minus | plus | tilde => simp
  | _ =>
    simp only [unary, kind] at done
    cases done

end Eval

namespace Simulation

open Compiler (Begins SameScope)
open Machine (Runs BaseOf)

variable {c c' c₁ c₂ : Compiler} {s s' s₁ s₂ : Array Cell} {fr : List Frame}
  {gl : List (Slot × Cell)} {n : String} {v : Value} {i : Instr}

/-! ### Loads -/

/-- The load that is compiled for a name gives a value. -/
inductive Finds (c : Compiler) (s : Array Cell) (fr : List Frame) (gl : List (Slot × Cell))
    (n : String) (v : Value) : Prop where
  | global {x j} : c.varSymbol? n = some (x, j) → x.depth = 0 → globalAt gl j = some (.value v) →
      Finds c s fr gl n v
  | loc {x j b} : c.varSymbol? n = some (x, j) → x.depth ≠ 0 → BaseOf fr b →
      s[j + b]? = some (.value v) → Finds c s fr gl n v

theorem Finds.same (finds : Finds c s fr gl n v) (same : SameScope c c') :
    Finds c' s fr gl n v := by
  cases finds with
  | global known top held => exact .global ((same.varSymbol? n).trans known) top held
  | loc known deep base cell => exact .loc ((same.varSymbol? n).trans known) deep base cell

theorem Finds.push (finds : Finds c s fr gl n v) (cell : Cell) :
    Finds c (s.push cell) fr gl n v := by
  cases finds with
  | global known top held => exact .global known top held
  | loc known deep base found =>
    have lt := (Array.getElem?_eq_some_iff.mp found).1
    refine .loc known deep base ?_
    rw [Array.getElem?_push, if_neg (Nat.ne_of_lt lt), found]

/-! ### Code that changes nothing but the stack -/

/-- The code between two states of the compiler changes one stack to another and nothing else. -/
structure Passes (fr : List Frame) (gl : List (Slot × Cell)) (c : Compiler) (s : Array Cell)
    (c' : Compiler) (s' : Array Cell) : Prop where
  scope : SameScope c c'
  code : c.code.toList <+: c'.code.toList
  runs : ∀ {code labels out}, c'.Begins code →
    Runs code labels ⟨c.code.size, s, fr, gl, out⟩ ⟨c'.code.size, s', fr, gl, out⟩

theorem Passes.trans (first : Passes fr gl c s c₁ s₁) (second : Passes fr gl c₁ s₁ c₂ s₂) :
    Passes fr gl c s c₂ s₂ where
  scope := first.scope.trans second.scope
  code := first.code.trans second.code
  runs begins := (first.runs (begins.of_prefix second.code)).trans (second.runs begins)

theorem passes_add (run : ∀ {code labels out}, code[c.code.size]? = some i →
      Runs code labels ⟨c.code.size, s, fr, gl, out⟩ ⟨c.code.size + 1, s', fr, gl, out⟩) :
    Passes fr gl c s (c.add i) s' where
  scope := (SameScope.refl c).add i
  code := Compiler.prefix_add c i
  runs begins := by
    rw [Compiler.size_add]
    exact run begins.fetch

theorem passes_push (v : Value) :
    Passes fr gl c s (c.add (.push (.value v))) (s.push (.value v)) :=
  passes_add Machine.runs_push

/-- A load gives the value that it finds. -/
theorem Finds.passes (finds : Finds c s fr gl n v) (line : Line) :
    ∃ c', Compiler.expr (.name n line) c = .ok () c' ∧
      Passes fr gl c s c' (s.push (.value v)) := by
  cases finds with
  | @global x j known top held =>
    refine ⟨c.add (.loadGlobal (.index j)), ?_, passes_add fun fetch =>
      Machine.runs_loadGlobal fetch held⟩
    rw [Compiler.expr, Compiler.load, get_bind]
    simp only [known, top]
    rfl
  | @loc x j b known deep base cell =>
    refine ⟨c.add (.loadLocal (.index j)), ?_, passes_add fun fetch =>
      Machine.runs_loadLocal fetch base cell⟩
    rw [Compiler.expr, Compiler.load, get_bind]
    simp only [known, beq_iff_eq, deep]
    rfl

end Simulation

end ScriptLang
