import ScriptLang.Proofs.Simulation.Connectives
import ScriptLang.Proofs.Value.Division
import ScriptLang.Proofs.Value.Truthful

/-!
Success and failure of plain expressions on both engines.

Plain expressions have literals, names, parentheses, `-`, `~` and binary operators. From whatever
state the machine runs the code of one, it comes through exactly if the evaluator finds a value, and
has then pushed this value and changed nothing else. Otherwise both engines fail, and at the same
inner expression: both work on the inner expressions in the order in which they end (`Expr.steps`),
and each of these adds instructions of its own to the code (`Expr.own`).

The counted height of the stack need not be right here, and the stack may be of any height.
-/

namespace ScriptLang

/-! ### Steps of an expression -/

/-- The inner expressions of an expression that is no call, in the order in which their evaluation
ends; the last is the expression itself. -/
def Expr.steps : Expr → List Expr
  | .group inner line => inner.steps ++ [.group inner line]
  | .unary op operand line => operand.steps ++ [.unary op operand line]
  | .binary op left right line => left.steps ++ right.steps ++ [.binary op left right line]
  | .logical op left right line => left.steps ++ right.steps ++ [.logical op left right line]
  | e => [e]

/-- How many instructions an expression has besides those of its operands. A negation is an
exclusive or with a literal. -/
def Expr.own : Expr → Nat
  | .group _ _ => 0
  | .unary op _ _ => if op.kind = .tilde then 2 else 1
  | _ => 1

/-- How many instructions some steps have. -/
def Expr.width : List Expr → Nat
  | [] => 0
  | x :: xs => x.own + width xs

/-- Expressions of literals, names, parentheses, `-`, `~` and binary operators. Whole numbers are
such that there is a binary64 number for them. -/
def Expr.Plain : Expr → Prop
  | .integer n _ => Number.ofInt? n ≠ none
  | .real _ _ | .text _ _ | .bool _ _ | .name _ _ => True
  | .group inner _ => inner.Plain
  | .unary op operand _ => (op.kind = .minus ∨ op.kind = .tilde) ∧ operand.Plain
  | .binary op left right _ => BinaryOp.ofKind? op.kind ≠ none ∧ left.Plain ∧ right.Plain
  | .logical _ _ _ _ | .call _ _ _ => False

namespace Expr

theorem width_append (xs ys : List Expr) : width (xs ++ ys) = width xs + width ys := by
  induction xs with
  | nil => exact (Nat.zero_add _).symm
  | cons x xs ih => rw [List.cons_append, width, width, ih, Nat.add_assoc]

theorem width_singleton (x : Expr) : width [x] = x.own := rfl

end Expr

/-- A report or a fault. -/
def Failure.Raised : Failure → Prop
  | .report _ | .fault _ => True
  | _ => False

/-- Division by a datum that equals zero has no result, whatever the tags are. -/
theorem BinaryOp.apply_div_of_same_zero (a : Value) {b : Value}
    (zero : b.datum.same (.int 0) = true) : ∃ cause, apply .div a b = .error cause := by
  simp only [apply, onNumbers]
  split
  · obtain ⟨f, failed⟩ := Datum.div_of_same_zero a.datum zero
    exact ⟨.fault f, by rw [failed]; rfl⟩
  · exact ⟨.tags, rfl⟩

theorem Value.honest_of_fits {P : Datum → Bool} {v : Value} (fits : v.fits P = true) :
    v.Honest := by
  intro tag
  obtain ⟨t, d⟩ := v
  cases tag
  cases d with
  | bool b => exact ⟨b, rfl⟩
  | _ => cases fits

theorem Value.datum_ne_none_of_fits {v : Value} (fits : v.fits Datum.isNumber = true) :
    v.datum ≠ .none := by
  obtain ⟨t, d⟩ := v
  rintro rfl
  cases t <;> cases fits

theorem Value.bitwise_bool_of_tag {op : Bitwise} {b : Bool} {v : Value} (tag : v.tag ≠ .bool) :
    v.bitwise op (.bool b) = .error .tags := by
  obtain ⟨t, d⟩ := v
  cases t with
  | bool => exact absurd rfl tag
  | _ => rfl

/-! ### The evaluator -/

namespace Eval

variable {st : Store} {σ : Nat} {e l r : Expr} {op : Token} {line : Line} {a b v : Value}
  {result result' : EStateM.Result Stop Store (Option Value)} {s : Stop}

/-- Evaluation ends in a result, whatever the fuel is if there is enough of it. -/
def Ends (st : Store) (σ : Nat) (e : Expr) (result : EStateM.Result Stop Store (Option Value)) :
    Prop :=
  ∃ least, ∀ fuel, least ≤ fuel → expr fuel σ e st = result

/-- The evaluator finds a value and leaves everything as it is. -/
def HasValue (st : Store) (σ : Nat) (e : Expr) : Prop := ∃ v, Ends st σ e (.ok (some v) st)

/-- Fuel that is enough for one and for the other is enough for both. -/
theorem Ends.both (h : Ends st σ l result) (h' : Ends st σ r result') :
    ∃ least, ∀ fuel, least ≤ fuel → expr fuel σ l st = result ∧ expr fuel σ r st = result' := by
  obtain ⟨n, ends⟩ := h
  obtain ⟨m, ends'⟩ := h'
  refine ⟨max n m, fun fuel enough => ⟨ends fuel ?_, ends' fuel ?_⟩⟩
  · exact Nat.le_trans (Nat.le_max_left n m) enough
  · exact Nat.le_trans (Nat.le_max_right n m) enough

theorem Ends.unique (h : Ends st σ e result) (h' : Ends st σ e result') : result = result' := by
  obtain ⟨n, both⟩ := h.both h'
  obtain ⟨ends, ends'⟩ := both n (Nat.le_refl n)
  exact ends.symm.trans ends'

theorem ends_succ {n : Nat} (h : ∀ fuel, n ≤ fuel → expr (fuel + 1) σ e st = result) :
    Ends st σ e result := by
  refine ⟨n + 1, fun fuel enough => ?_⟩
  cases fuel with
  | zero => exact absurd enough (Nat.not_succ_le_zero n)
  | succ fuel => exact h fuel (Nat.le_of_succ_le_succ enough)

theorem ends_at_once (h : ∀ fuel, expr (fuel + 1) σ e st = result) : Ends st σ e result :=
  ends_succ (n := 0) fun fuel _ => h fuel

theorem Ends.group (h : Ends st σ e result) : Ends st σ (.group e line) result := by
  obtain ⟨n, ends⟩ := h
  refine ends_succ (n := n) fun fuel enough => ?_
  rw [expr]
  exact ends fuel enough

theorem demand_bind_of_ok {β : Type} {x : Eval (Option Value)} {k : Value → Eval β} {st' : Store}
    (h : x st = .ok (some v) st') : (do let o ← x; let v ← demand o; k v) st = k v st' := by
  rw [bind_of_ok h]
  rfl

theorem Ends.unary (h : Ends st σ e (.ok (some v) st)) (applied : Eval.unary op v st = result) :
    Ends st σ (.unary op e line) result := by
  obtain ⟨n, ends⟩ := h
  refine ends_succ (n := n) fun fuel enough => ?_
  rw [expr, demand_bind_of_ok (ends fuel enough), applied]

theorem Ends.unary_error (h : Ends st σ e (.error s st)) :
    Ends st σ (.unary op e line) (.error s st) := by
  obtain ⟨n, ends⟩ := h
  refine ends_succ (n := n) fun fuel enough => ?_
  rw [expr]
  exact bind_of_error (ends fuel enough)

theorem Ends.binary (h : Ends st σ l (.ok (some a) st)) (h' : Ends st σ r (.ok (some b) st))
    (applied : Eval.binary op a b line st = result) :
    Ends st σ (.binary op l r line) result := by
  obtain ⟨n, both⟩ := h.both h'
  refine ends_succ (n := n) fun fuel enough => ?_
  obtain ⟨first, second⟩ := both fuel enough
  rw [expr, demand_bind_of_ok first, demand_bind_of_ok second, applied]

theorem Ends.binary_left (h : Ends st σ l (.error s st)) :
    Ends st σ (.binary op l r line) (.error s st) := by
  obtain ⟨n, ends⟩ := h
  refine ends_succ (n := n) fun fuel enough => ?_
  rw [expr]
  exact bind_of_error (ends fuel enough)

theorem Ends.binary_right (h : Ends st σ l (.ok (some a) st)) (h' : Ends st σ r (.error s st)) :
    Ends st σ (.binary op l r line) (.error s st) := by
  obtain ⟨n, both⟩ := h.both h'
  refine ends_succ (n := n) fun fuel enough => ?_
  obtain ⟨first, second⟩ := both fuel enough
  rw [expr, demand_bind_of_ok first]
  exact bind_of_error second

theorem ends_name {n : String} (found : st.forest.getVar σ n = some v) (there : v.datum ≠ .none) :
    Ends st σ (.name n line) (.ok (some v) st) := by
  refine ends_at_once fun fuel => ?_
  rw [expr]
  refine map_eq_ok.mpr ⟨v, ?_, rfl⟩
  rw [lookup, get_bind, found]
  cases datum : v.datum with
  | none => exact absurd datum there
  | _ =>
    simp only [datum]
    rfl

/-! ### Operations

The machine pushes what an operation on values yields, or fails. -/

/-- The evaluator returns what an operation yields, and fails where the operation does. -/
inductive Matches (st : Store) : Except OperationError Value →
    EStateM.Result Stop Store (Option Value) → Prop where
  | value {w : Value} : w.Honest → Matches st (.ok w) (.ok (some w) st)
  | failure {cause : OperationError} {f : Failure} : f.Raised →
      Matches st (.error cause) (.error (.failure f) st)

/-- Division by zero, which is reported before it is tried, would fail. -/
theorem binary_matches {o : BinaryOp} (known : BinaryOp.ofKind? op.kind = some o) (a b : Value)
    (line : Line) (st : Store) : Matches st (Machine.result o a b) (binary op a b line st) := by
  rw [Machine.result_eq_apply]
  unfold binary
  rw [known]
  by_cases zero : (o == .div && b.datum.same (.int 0)) = true
  · obtain ⟨div, same⟩ := Bool.and_eq_true_iff.mp zero
    obtain rfl := beq_iff_eq.mp div
    obtain ⟨cause, failed⟩ := BinaryOp.apply_div_of_same_zero a same
    simp only [if_pos zero, failed]
    exact .failure trivial
  · simp only [if_neg zero]
    cases applied : o.apply a b with
    | ok v => exact .value (Value.honest_of_apply applied)
    | error cause => cases cause <;> exact .failure trivial

theorem minus_matches (minus : op.kind = .minus) (v : Value) (st : Store) :
    Matches st (Machine.negative v) (unary op v st) := by
  rw [Machine.negative_eq_neg]
  unfold unary
  rw [minus]
  cases negated : v.neg with
  | ok w => exact .value (Value.honest_of_neg negated)
  | error cause => cases cause <;> exact .failure trivial

/-- The machine negates by an exclusive or. -/
theorem tilde_matches (tilde : op.kind = .tilde) (honest : v.Honest) (st : Store) :
    Matches st (v.bitwise .xor (.bool true)) (unary op v st) := by
  unfold unary
  rw [tilde]
  by_cases tag : v.tag = .bool
  · simp only [honest.xor_true tag, tag]
    exact .value (Value.honest_bool _)
  · rw [Value.bitwise_bool_of_tag tag]
    cases other : v.tag with
    | bool => exact absurd other tag
    | _ => exact .failure trivial

/-! ### Values and failures -/

/-- An expression and all its steps have values. -/
structure Yields (st : Store) (σ : Nat) (e : Expr) (v : Value) : Prop where
  whole : Ends st σ e (.ok (some v) st)
  honest : v.Honest
  steps : ∀ x ∈ e.steps, HasValue st σ x

/-- Evaluation fails at the step `x`: the steps before it have values, it has instructions of its
own, and the whole expression fails as it does. -/
structure Breaks (st : Store) (σ : Nat) (e : Expr) (before : List Expr) (x : Expr) (f : Failure) :
    Prop where
  steps : ∃ after, e.steps = before ++ x :: after
  earlier : ∀ y ∈ before, HasValue st σ y
  own : 0 < x.own
  step : Ends st σ x (.error (.failure f) st)
  whole : Ends st σ e (.error (.failure f) st)
  raised : f.Raised

variable {before : List Expr} {x : Expr} {f : Failure}

theorem Yields.hasValue (h : Yields st σ e v) : HasValue st σ e := ⟨v, h.whole⟩

theorem Yields.of_last (last : e.steps = before ++ [e]) (earlier : ∀ y ∈ before, HasValue st σ y)
    (whole : Ends st σ e (.ok (some v) st)) (honest : v.Honest) : Yields st σ e v where
  whole := whole
  honest := honest
  steps y mem := by
    rw [last] at mem
    rcases List.mem_append.mp mem with mem | mem
    · exact earlier y mem
    · obtain rfl := List.mem_singleton.mp mem
      exact ⟨v, whole⟩

theorem Breaks.of_last (last : e.steps = before ++ [e]) (earlier : ∀ y ∈ before, HasValue st σ y)
    (own : 0 < e.own) (whole : Ends st σ e (.error (.failure f) st)) (raised : f.Raised) :
    Breaks st σ e before e f :=
  ⟨⟨[], last⟩, earlier, own, whole, whole, raised⟩

/-- An expression fails where one of its operands does, if the steps before the operand have
values. -/
theorem Breaks.of_operand {start rest : List Expr} (h : Breaks st σ l before x f)
    (steps : e.steps = start ++ l.steps ++ rest) (earlier : ∀ y ∈ start, HasValue st σ y)
    (whole : Ends st σ e (.error (.failure f) st)) : Breaks st σ e (start ++ before) x f where
  steps := by
    obtain ⟨after, inner⟩ := h.steps
    exact ⟨after ++ rest, by rw [steps, inner]; simp⟩
  earlier y mem := (List.mem_append.mp mem).elim (earlier y) (h.earlier y)
  own := h.own
  step := h.step
  whole := whole
  raised := h.raised

end Eval

/-! ### The machine -/

namespace Machine

variable {m m' : Machine} {code : Array Instr} {i : Instr} {a b v : Value} {k : Nat} {g : Failure}

/-- The machine with one more value on its stack. -/
def raise (m : Machine) (v : Value) : Machine :=
  { m with stack := m.stack.push (.value v), sp := m.sp + 1 }

/-- The machine with more values on its stack, the last one on top. -/
def raiseAll (m : Machine) (vs : List Value) : Machine := vs.foldl raise m

/-- The machine at an instruction. -/
def atInstr (m : Machine) (n : Nat) : Machine := { m with pc := n }

theorem popValue_raise (m : Machine) (v : Value) : popValue (m.raise v) = .ok v m := by
  have popped : pop (m.raise v) = .ok (.value v) m := by
    simp [pop, raise]
  rw [popValue, bind_of_ok popped]
  rfl

theorem execute_binary_raise (op : BinaryOp) (m : Machine) (a b : Value) :
    execute (.binary op) ((m.raise a).raise b) =
      pushResult (betweenText op.mnemonic a b (messageEnding op)) (result op a b) m := by
  rw [execute, binary, bind_of_ok (popValue_raise _ b), bind_of_ok (popValue_raise m a)]

theorem execute_bitwise_raise (op : Bitwise) (m : Machine) (a b : Value) :
    execute (.bitwise op) ((m.raise a).raise b) =
      pushResult (betweenText op.mnemonic a b "") (a.bitwise op b) m := by
  rw [execute, bitwise, bind_of_ok (popValue_raise _ b), bind_of_ok (popValue_raise m a)]

theorem execute_neg_raise (m : Machine) (v : Value) :
    execute .neg (m.raise v) =
      pushResult ("Error on NEG between " ++ v.tag.plain) (negative v) m := by
  rw [execute, negate, bind_of_ok (popValue_raise m v)]

theorem pushResult_error (message : String) (cause : OperationError) (m : Machine) :
    ∃ g, pushResult message (.error cause) m = .error g m ∧ g.Raised := by
  cases cause with
  | tags => exact ⟨_, rfl, trivial⟩
  | fault f => exact ⟨_, rfl, trivial⟩

theorem loop_of_execute (fetch : code[k]? = some i) (running : m'.running = true)
    (done : execute i (m.atInstr (k + 1)) = .ok () (m'.atInstr (k + 1))) (n : Nat) :
    loop code (1 + n) (m.atInstr k) = loop code n (m'.atInstr (k + 1)) := by
  have stepped : step code (m.atInstr k) = .ok () (m'.atInstr (k + 1)) := by
    rw [step_eq fetch]
    exact done
  rw [Nat.add_comm, loop, stepped]
  exact if_pos running

theorem loop_of_failure (fetch : code[k]? = some i)
    (failed : execute i (m.atInstr (k + 1)) = .error g (m'.atInstr (k + 1))) (n : Nat) :
    loop code (1 + n) (m.atInstr k) = (.failed g, m'.atInstr (k + 1)) := by
  have stepped : step code (m.atInstr k) = .error g (m'.atInstr (k + 1)) := by
    rw [step_eq fetch]
    exact failed
  rw [Nat.add_comm, loop, stepped]

end Machine

theorem Compiler.Loads.same {c c' : Compiler} {n : String} {i : Instr} (loads : Loads c n i)
    (same : SameScope c c') : Loads c' n i := by
  cases loads with
  | global known top => exact .global ((same.varSymbol? n).trans known) top
  | loc known deep => exact .loc ((same.varSymbol? n).trans known) deep

theorem Compiler.Loads.unique {c : Compiler} {n : String} {i i' : Instr} (loads : Loads c n i)
    (loads' : Loads c n i') : i = i' := by
  cases loads with
  | global known top =>
    cases loads' with
    | global known' _ =>
      cases known.symm.trans known'
      rfl
    | loc known' deep =>
      cases known.symm.trans known'
      exact absurd top deep
  | loc known deep =>
    cases loads' with
    | global known' top =>
      cases known.symm.trans known'
      exact absurd top deep
    | loc known' _ =>
      cases known.symm.trans known'
      rfl

namespace Simulation

open Compiler (Begins SameScope)
open Eval (Ends HasValue Matches Yields Breaks)
open ScriptLang.Expr (width width_append width_singleton)
open Machine (loop execute pushResult)

variable {st : Store} {σ : Nat} {e l r : Expr} {op : Token} {line : Line} {c c' c₁ c₂ : Compiler}
  {m m' m₁ m₂ : Machine} {v w : Value} {n : String} {i : Instr} {j k p : Nat} {g : Failure}
  {before : List Expr}

/-! ### Loads -/

/-- The load of a name gives a value, whatever has been pushed in the meantime. A place below zero
would count from the top of the stack. -/
def Supplies (c : Compiler) (m : Machine) (n : String) (v : Value) : Prop :=
  ∃ i, c.Loads n i ∧ ∀ vs pc,
    execute i ((m.raiseAll vs).atInstr pc) = .ok () (((m.raiseAll vs).raise v).atInstr pc)

theorem Supplies.same (supplies : Supplies c m n v) (same : SameScope c c') :
    Supplies c' m n v := by
  obtain ⟨i, loads, executed⟩ := supplies
  exact ⟨i, loads.same same, executed⟩

theorem Supplies.raise (supplies : Supplies c m n v) (w : Value) : Supplies c (m.raise w) n v := by
  obtain ⟨i, loads, executed⟩ := supplies
  exact ⟨i, loads, fun vs pc => executed (w :: vs) pc⟩

theorem Finds.execute (finds : Finds c m.stack m.frames m.globals n v) :
    ∃ i, c.Loads n i ∧ ∀ pc, execute i (m.atInstr pc) = .ok () ((m.raise v).atInstr pc) := by
  cases finds with
  | @global x j known top held =>
    refine ⟨.loadGlobal (.index j), .global known top, fun pc => ?_⟩
    have held' : (m.atInstr pc).global? (.index j) = some (.value v) := held
    rw [Machine.execute, Machine.loadGlobal, get_bind, held']
    rfl
  | @loc x j b known deep base cell =>
    refine ⟨.loadLocal (.index j), .loc known deep, fun pc => ?_⟩
    have based : (m.atInstr pc).Based b := base
    have cell' : (m.atInstr pc).stack[j + b]? = some (.value v) := cell
    rw [Machine.execute, Machine.loadLocal, bind_of_ok (Machine.localPlace_eq based),
      bind_of_ok (show Machine.lift (Machine.indexOf _) (m.atInstr pc) = .ok _ _ from rfl),
      bind_of_ok (Machine.cellAt_eq cell')]
    rfl

theorem Finds.raiseAll (finds : Finds c m.stack m.frames m.globals n v) (vs : List Value) :
    Finds c (m.raiseAll vs).stack (m.raiseAll vs).frames (m.raiseAll vs).globals n v := by
  induction vs generalizing m with
  | nil => exact finds
  | cons w vs ih => exact ih (m := m.raise w) (finds.push (.value w))

/-- What is found is below the cells that are pushed later, so it is found again. -/
theorem Finds.supplies (finds : Finds c m.stack m.frames m.globals n v) : Supplies c m n v := by
  obtain ⟨i, loads, -⟩ := finds.execute
  refine ⟨i, loads, fun vs => ?_⟩
  obtain ⟨i', loads', executed⟩ := (finds.raiseAll vs).execute
  cases loads.unique loads'
  exact executed

/-- The value of each name in an expression fits its tag, and the machine loads it. -/
def Named (st : Store) (σ : Nat) (c : Compiler) (m : Machine) (e : Expr) : Prop :=
  ∀ n line, .name n line ∈ e.steps →
    ∃ v, st.forest.getVar σ n = some v ∧ v.fits Datum.isNumber = true ∧ Supplies c m n v

theorem Named.of_subset (named : Named st σ c m e) (sub : l.steps ⊆ e.steps) : Named st σ c m l :=
  fun n line mem => named n line (sub mem)

theorem Named.same (named : Named st σ c m e) (same : SameScope c c') : Named st σ c' m e := by
  intro n line mem
  obtain ⟨v, found, fits, supplies⟩ := named n line mem
  exact ⟨v, found, fits, supplies.same same⟩

theorem Named.raise (named : Named st σ c m e) (w : Value) : Named st σ c (m.raise w) e := by
  intro n line mem
  obtain ⟨v, found, fits, supplies⟩ := named n line mem
  exact ⟨v, found, fits, supplies.raise w⟩

/-! ### Runs of code that has been added -/

/-- Code of `k` instructions has been added. -/
structure Adds (k : Nat) (c c' : Compiler) : Prop where
  scope : SameScope c c'
  code : c.code.toList <+: c'.code.toList
  size : c'.code.size = c.code.size + k

theorem Adds.refl (c : Compiler) : Adds 0 c c := ⟨SameScope.refl c, List.prefix_rfl, rfl⟩

theorem Adds.trans (h : Adds k c c₁) (h' : Adds j c₁ c₂) : Adds (k + j) c c₂ where
  scope := h.scope.trans h'.scope
  code := h.code.trans h'.code
  size := by rw [h'.size, h.size, Nat.add_assoc]

theorem adds_add (c : Compiler) (i : Instr) : Adds 1 c (c.add i) where
  scope := (SameScope.refl c).add i
  code := Compiler.prefix_add c i
  size := Compiler.size_add c i

/-- The code between two states of the compiler is `k` instructions on the way of the machine from
`m` to `m'`. -/
def Leads (k : Nat) (c : Compiler) (m : Machine) (c' : Compiler) (m' : Machine) : Prop :=
  ∀ code, c'.Begins code → ∀ n,
    loop code (k + n) (m.atInstr c.code.size) = loop code n (m'.atInstr c'.code.size)

/-- The machine fails in the code between two states of the compiler, and would go on at `p`. -/
def Fails (k : Nat) (c : Compiler) (m : Machine) (c' : Compiler) (g : Failure) (p : Nat) : Prop :=
  ∀ code, c'.Begins code → ∀ n, ∃ m',
    loop code (k + n) (m.atInstr c.code.size) = (.failed g, m') ∧ m'.pc = p

theorem Leads.refl (c : Compiler) (m : Machine) : Leads 0 c m c m := by
  intro code begins n
  rw [Nat.zero_add]

theorem Leads.trans (h : Leads k c m c₁ m₁) (code : c₁.code.toList <+: c₂.code.toList)
    (h' : Leads j c₁ m₁ c₂ m₂) : Leads (k + j) c m c₂ m₂ := by
  intro code' begins n
  rw [Nat.add_assoc, h _ (begins.of_prefix code), h' _ begins]

theorem Leads.fails (h : Leads k c m c₁ m₁) (code : c₁.code.toList <+: c₂.code.toList)
    (h' : Fails j c₁ m₁ c₂ g p) : Fails (k + j) c m c₂ g p := by
  intro code' begins n
  rw [Nat.add_assoc, h _ (begins.of_prefix code)]
  exact h' _ begins n

theorem Fails.more (h : Fails k c m c₁ g p) (code : c₁.code.toList <+: c₂.code.toList) (j : Nat) :
    Fails (k + j) c m c₂ g p := by
  intro code' begins n
  rw [Nat.add_assoc]
  exact h _ (begins.of_prefix code) (j + n)

theorem leads_add (running : m'.running = true)
    (done : ∀ pc, execute i (m.atInstr pc) = .ok () (m'.atInstr pc)) :
    Leads 1 c m (c.add i) m' := by
  intro code begins n
  rw [Compiler.size_add]
  exact Machine.loop_of_execute begins.fetch running (done _) n

theorem leads_push (running : m.running = true) (v : Value) :
    Leads 1 c m (c.add (.push (.value v))) (m.raise v) :=
  leads_add running fun _ => rfl

theorem fails_add (failed : execute i (m.atInstr (c.code.size + 1)) =
      .error g (m'.atInstr (c.code.size + 1))) :
    Fails 1 c m (c.add i) g (c.code.size + 1) := by
  intro code begins n
  exact ⟨_, Machine.loop_of_failure begins.fetch failed n, rfl⟩

/-! ### Both engines -/

/-- Both engines find the same value of an expression, or both fail at the same step. -/
inductive Meets (st : Store) (σ : Nat) (e : Expr) (c : Compiler) (m : Machine) (c' : Compiler) :
    Prop where
  | value {v : Value} : Yields st σ e v → Leads (width e.steps) c m c' (m.raise v) →
      Meets st σ e c m c'
  | failure {before : List Expr} {x : Expr} {f g : Failure} : Breaks st σ e before x f → g.Raised →
      Fails (width e.steps) c m c' g (c.code.size + width (before ++ [x])) → Meets st σ e c m c'

/-- The code of an expression works as the expression, wherever it is compiled and run. -/
structure Realized (st : Store) (σ : Nat) (e : Expr) : Prop where
  meets : ∀ {c m}, Named st σ c m e → m.running = true →
    ∃ c', Compiler.expr e c = .ok () c' ∧ Adds (width e.steps) c c' ∧ Meets st σ e c m c'

/-- One instruction that pushes the value of an expression without operands. -/
theorem meets_leaf (leaf : e.steps = [e]) (own : e.own = 1) (ends : Ends st σ e (.ok (some v) st))
    (honest : v.Honest) (running : m.running = true)
    (done : ∀ pc, execute i (m.atInstr pc) = .ok () ((m.raise v).atInstr pc)) :
    Adds (width e.steps) c (c.add i) ∧ Meets st σ e c m (c.add i) := by
  have one : width e.steps = 1 := by rw [leaf, width_singleton, own]
  refine ⟨one ▸ adds_add c i, .value (.of_last (show e.steps = [] ++ [e] from leaf) (by simp) ends
    honest) ?_⟩
  rw [one]
  exact leads_add running done

theorem width_operation (last : e.steps = before ++ [e]) (own : e.own = j + 1) :
    width e.steps = width before + j + 1 := by
  rw [last, width_append, width_singleton, own, Nat.add_assoc]

/-- An operation adds its instruction to the code that prepares its operands. -/
theorem adds_operation (last : e.steps = before ++ [e]) (own : e.own = j + 1)
    (adds : Adds (width before + j) c c₁) (i : Instr) : Adds (width e.steps) c (c₁.add i) :=
  width_operation last own ▸ adds.trans (adds_add c₁ i)

theorem meets_operation {message : String} {r : Except OperationError Value}
    {result : EStateM.Result Stop Store (Option Value)} (last : e.steps = before ++ [e])
    (own : e.own = j + 1) (earlier : ∀ y ∈ before, HasValue st σ y)
    (adds : Adds (width before + j) c c₁) (leads : Leads (width before + j) c m c₁ m₁)
    (running : m.running = true)
    (executed : ∀ pc, execute i (m₁.atInstr pc) = pushResult message r (m.atInstr pc))
    (same : Matches st r result) (ends : Ends st σ e result) : Meets st σ e c m (c₁.add i) := by
  have size := width_operation last own
  have more := Compiler.prefix_add c₁ i
  cases same with
  | value honest =>
    refine .value (.of_last last earlier ends honest) ?_
    rw [size]
    exact leads.trans more (leads_add running executed)
  | @failure cause f raised =>
    obtain ⟨g, failed, raised'⟩ := Machine.pushResult_error message cause
      (m.atInstr (c₁.code.size + 1))
    refine .failure (.of_last last earlier (by omega) ends raised) raised' ?_
    rw [← last, size, ← Nat.add_assoc, ← adds.size]
    exact leads.fails more (fails_add ((executed _).trans failed))

/-- Code that fails in that of an operand, after `start`. -/
theorem meets_operand {start rest : List Expr} {x : Expr} {f : Failure}
    (steps : e.steps = start ++ l.steps ++ rest) (earlier : ∀ y ∈ start, HasValue st σ y)
    (adds : Adds (width start) c c₁) (leads : Leads (width start) c m c₁ m₁)
    (adds' : Adds (width l.steps) c₁ c₂) (breaks : Breaks st σ l before x f) (raised : g.Raised)
    (fails : Fails (width l.steps) c₁ m₁ c₂ g (c₁.code.size + width (before ++ [x])))
    (more : c₂.code.toList <+: c'.code.toList) (whole : Ends st σ e (.error (.failure f) st)) :
    Meets st σ e c m c' := by
  refine .failure (breaks.of_operand steps earlier whole) raised ?_
  have size : width e.steps = width start + width l.steps + width rest := by
    rw [steps, width_append, width_append]
  have place : c.code.size + width (start ++ before ++ [x]) =
      c₁.code.size + width (before ++ [x]) := by
    rw [adds.size, List.append_assoc, width_append, Nat.add_assoc]
  rw [size, place]
  exact (leads.fails adds'.code fails).more more (width rest)

theorem meets_first {rest : List Expr} {x : Expr} {f : Failure} (steps : e.steps = l.steps ++ rest)
    (adds : Adds (width l.steps) c c₁) (breaks : Breaks st σ l before x f) (raised : g.Raised)
    (fails : Fails (width l.steps) c m c₁ g (c.code.size + width (before ++ [x])))
    (more : c₁.code.toList <+: c'.code.toList) (whole : Ends st σ e (.error (.failure f) st)) :
    Meets st σ e c m c' :=
  meets_operand (show e.steps = [] ++ l.steps ++ rest from steps) (by simp) (.refl c) (.refl c m)
    adds breaks raised fails more whole

/-! ### Forms of expressions -/

theorem realized_literal (honest : w.Honest) (leaf : e.steps = [e]) (own : e.own = 1)
    (value : ∀ fuel, Eval.expr (fuel + 1) σ e = pure (some w))
    (compiled : Compiler.expr e = Compiler.emit (.push (.value w))) : Realized st σ e := by
  refine ⟨fun {c m} named running => ⟨c.add (.push (.value w)), by rw [compiled]; rfl, ?_⟩⟩
  have ends : Ends st σ e (.ok (some w) st) := Eval.ends_at_once fun fuel => by rw [value]; rfl
  exact meets_leaf leaf own ends honest running fun _ => rfl

theorem realized_integer {x : Int} (known : Number.ofInt? x ≠ none) (line : Line) :
    Realized st σ (.integer x line) := by
  obtain ⟨y, known⟩ := Option.ne_none_iff_exists'.mp known
  apply realized_literal (Value.honest_number (.float y)) rfl rfl
  · intro fuel
    rw [Eval.expr, known]
  · rw [Compiler.expr, Compiler.pushInt, known]

theorem realized_name (n : String) (line : Line) : Realized st σ (.name n line) := by
  refine ⟨fun {c m} named running => ?_⟩
  obtain ⟨v, found, fits, i, loads, executed⟩ := named n line (List.mem_singleton_self _)
  refine ⟨c.add i, ?_, meets_leaf rfl rfl (Eval.ends_name found (Value.datum_ne_none_of_fits fits))
    (Value.honest_of_fits fits) running (executed [])⟩
  rw [Compiler.expr]
  exact loads.compiles line

theorem Realized.group (inner : Realized st σ e) : Realized st σ (.group e line) := by
  refine ⟨fun {c m} named running => ?_⟩
  have size : width (Expr.steps (.group e line)) = width e.steps := by
    rw [Expr.steps, width_append, width_singleton, Expr.own, Nat.add_zero]
  obtain ⟨c', compiled, adds, meets⟩ := inner.meets (named.of_subset (by simp [Expr.steps])) running
  rw [size, Compiler.expr]
  refine ⟨c', compiled, adds, ?_⟩
  cases meets with
  | value yields leads =>
    refine .value (.of_last rfl yields.steps yields.whole.group yields.honest) ?_
    rw [size]
    exact leads
  | failure breaks raised fails =>
    exact meets_first rfl adds breaks raised fails List.prefix_rfl breaks.whole.group

theorem Realized.minus (operand : Realized st σ e) (kind : op.kind = .minus) :
    Realized st σ (.unary op e line) := by
  refine ⟨fun {c m} named running => ?_⟩
  have own : Expr.own (.unary op e line) = 1 := by simp [Expr.own, kind]
  obtain ⟨c₁, compiled, adds, meets⟩ :=
    operand.meets (named.of_subset (by simp [Expr.steps])) running
  refine ⟨c₁.add .neg, ?_, adds_operation (j := 0) rfl own adds _, ?_⟩
  · rw [Compiler.expr, bind_of_ok compiled, kind]
    rfl
  · cases meets with
    | @value v yields leads =>
      exact meets_operation (j := 0) rfl own yields.steps adds leads running
        (fun pc => Machine.execute_neg_raise (m.atInstr pc) v) (Eval.minus_matches kind v st)
        (yields.whole.unary rfl)
    | failure breaks raised fails =>
      exact meets_first rfl adds breaks raised fails (Compiler.prefix_add _ _)
        breaks.whole.unary_error

theorem Realized.tilde (operand : Realized st σ e) (kind : op.kind = .tilde) :
    Realized st σ (.unary op e line) := by
  refine ⟨fun {c m} named running => ?_⟩
  have own : Expr.own (.unary op e line) = 2 := by simp [Expr.own, kind]
  obtain ⟨c₁, compiled, adds, meets⟩ :=
    operand.meets (named.of_subset (by simp [Expr.steps])) running
  have adds' := adds.trans (adds_add c₁ (.push (.value (.bool true))))
  refine ⟨(c₁.add (.push (.value (.bool true)))).add (.bitwise .xor), ?_,
    adds_operation (j := 1) rfl own adds' _, ?_⟩
  · rw [Compiler.expr, bind_of_ok compiled, kind]
    rfl
  · cases meets with
    | @value v yields leads =>
      -- The literal is pushed in any case; only the exclusive or that follows may fail.
      have pushed : Leads (width e.steps + 1) c m (c₁.add (.push (.value (.bool true))))
          ((m.raise v).raise (.bool true)) :=
        leads.trans (Compiler.prefix_add _ _) (leads_push (m := m.raise v) running _)
      exact meets_operation (j := 1) rfl own yields.steps adds' pushed running
        (fun pc => Machine.execute_bitwise_raise .xor (m.atInstr pc) v (.bool true))
        (Eval.tilde_matches kind yields.honest st) (yields.whole.unary rfl)
    | failure breaks raised fails =>
      exact meets_first rfl adds breaks raised fails
        ((Compiler.prefix_add _ _).trans (Compiler.prefix_add _ _)) breaks.whole.unary_error

theorem Realized.binary (left : Realized st σ l) (right : Realized st σ r)
    (known : BinaryOp.ofKind? op.kind ≠ none) : Realized st σ (.binary op l r line) := by
  refine ⟨fun {c m} named running => ?_⟩
  obtain ⟨o, known⟩ := Option.ne_none_iff_exists'.mp known
  obtain ⟨c₁, compiled, adds, meets⟩ := left.meets (named.of_subset (by simp [Expr.steps])) running
  have named' := (named.of_subset (l := r) (by simp [Expr.steps])).same adds.scope
  -- The right operand compiles also where the left one fails and its code is never reached.
  obtain ⟨c₂, compiled', adds', -⟩ := right.meets named' running
  have both : Adds (width (l.steps ++ r.steps) + 0) c c₂ := by
    rw [width_append]
    exact adds.trans adds'
  refine ⟨c₂.add (.binary o), ?_, adds_operation (j := 0) rfl rfl both _, ?_⟩
  · rw [Compiler.expr, bind_of_ok compiled, bind_of_ok compiled', Compiler.emitBinary,
      Compiler.opcode?_eq_ofKind?, known]
    rfl
  · cases meets with
    | failure breaks raised fails =>
      exact meets_first (List.append_assoc _ _ _) adds breaks raised fails
        (adds'.code.trans (Compiler.prefix_add _ _)) breaks.whole.binary_left
    | @value a yields leads =>
      obtain ⟨c₃, compiled₃, -, meets'⟩ := right.meets (named'.raise a) running
      cases compiled'.symm.trans compiled₃
      cases meets' with
      | failure breaks raised fails =>
        exact meets_operand rfl yields.steps adds leads adds' breaks raised fails
          (Compiler.prefix_add _ _) (yields.whole.binary_right breaks.whole)
      | @value b yields' leads' =>
        have earlier : ∀ y ∈ l.steps ++ r.steps, HasValue st σ y := fun y mem =>
          (List.mem_append.mp mem).elim (yields.steps y) (yields'.steps y)
        have passed : Leads (width (l.steps ++ r.steps) + 0) c m c₂ ((m.raise a).raise b) := by
          rw [width_append]
          exact leads.trans adds'.code leads'
        exact meets_operation (j := 0) rfl rfl earlier both passed running
          (fun pc => Machine.execute_binary_raise o (m.atInstr pc) a b)
          (Eval.binary_matches known a b line st) (yields.whole.binary yields'.whole rfl)

theorem realized_of_plain (e : Expr) (plain : e.Plain) : Realized st σ e := by
  match e with
  | .integer x line => exact realized_integer plain line
  | .real x line =>
    apply realized_literal (Value.honest_number (.float x)) rfl rfl
    · intro fuel
      rw [Eval.expr]
    · rw [Compiler.expr]
  | .text x line =>
    apply realized_literal (Value.honest_string x) rfl rfl
    · intro fuel
      rw [Eval.expr]
    · rw [Compiler.expr]
  | .bool x line =>
    apply realized_literal (Value.honest_bool x) rfl rfl
    · intro fuel
      rw [Eval.expr]
    · rw [Compiler.expr]
  | .name n line => exact realized_name n line
  | .group inner line => exact (realized_of_plain inner plain).group
  | .unary op operand line =>
    obtain ⟨minus | tilde, plain⟩ := plain
    · exact (realized_of_plain operand plain).minus minus
    · exact (realized_of_plain operand plain).tilde tilde
  | .binary op left right line =>
    obtain ⟨known, plain, plain'⟩ := plain
    exact (realized_of_plain left plain).binary (realized_of_plain right plain') known
  | .logical op left right line => cases plain
  | .call n args line => cases plain
termination_by structural e

/-! ### Agreement -/

/-- How the evaluation of an expression and a run of its code compare, where the code goes from the
end of that of `c` to the end of that of `c'`. Where the machine fails, it has fetched the last
instruction of the step at which the evaluator fails. -/
structure SameEnd (st : Store) (σ : Nat) (e : Expr) (c c' : Compiler) (code : Array Instr)
    (m : Machine) : Prop where
  success : HasValue st σ e ↔ ∃ m', loop code (width e.steps) m = (.limit, m')
  value : ∀ v, Ends st σ e (.ok (some v) st) →
    loop code (width e.steps) m = (.limit, (m.raise v).atInstr c'.code.size)
  failure : ¬HasValue st σ e → ∃ before x f g m', Breaks st σ e before x f ∧ g.Raised ∧
    loop code (width e.steps) m = (.failed g, m') ∧
    m'.pc = c.code.size + width (before ++ [x])

theorem Meets.sameEnd (meets : Meets st σ e c m c') (here : m.pc = c.code.size) {code : Array Instr}
    (begins : c'.Begins code) : SameEnd st σ e c c' code m := by
  have start : m.atInstr c.code.size = m := by rw [← here]; rfl
  cases meets with
  | @value v yields leads =>
    have run : loop code (width e.steps) m = (.limit, (m.raise v).atInstr c'.code.size) := by
      have run := leads code begins 0
      rwa [start] at run
    refine ⟨⟨fun _ => ⟨_, run⟩, fun _ => yields.hasValue⟩, fun w ends => ?_,
      fun none => absurd yields.hasValue none⟩
    cases yields.whole.unique ends
    exact run
  | @failure before x f g breaks raised fails =>
    have none : ∀ v, ¬Ends st σ e (.ok (some v) st) := fun v ends => by
      cases breaks.whole.unique ends
    obtain ⟨m', run, place⟩ := fails code begins 0
    rw [start] at run
    refine ⟨⟨?_, ?_⟩, fun v ends => absurd ends (none v),
      fun _ => ⟨before, x, f, g, m', breaks, raised, run, place⟩⟩
    · rintro ⟨v, ends⟩
      exact absurd ends (none v)
    · rintro ⟨m₁, limit⟩
      cases run.symm.trans limit

/-- On a plain expression both engines succeed and fail alike. The expression compiles. If it has a
value, then the machine runs through its code, pushes the value and changes nothing else; otherwise
both engines fail at the same step. -/
theorem plain_same_end (plain : e.Plain) (named : Named st σ c m e) (running : m.running = true)
    (here : m.pc = c.code.size) :
    ∃ c', Compiler.expr e c = .ok () c' ∧ c'.code.size = c.code.size + width e.steps ∧
      ∀ code, c'.Begins code → SameEnd st σ e c c' code m := by
  obtain ⟨c', compiled, adds, meets⟩ := (realized_of_plain e plain).meets named running
  exact ⟨c', compiled, adds.size, fun code begins => meets.sameEnd here begins⟩

/-- A sum whose first operand has a value and whose second has none: `10 / x + ~x`. -/
def quotientPlusNegation : Expr :=
  .binary ⟨.plus, "+", 1⟩ (.binary ⟨.slash, "/", 1⟩ (.integer 10 1) (.name "x" 1) 1)
    (.unary ⟨.tilde, "~", 1⟩ (.name "x" 1) 1) 1

/-- A running machine with one global. -/
def machineOf (n : Nat) : Machine := Machine.Config.machine [] ⟨0, #[], [], globalsOf n, ""⟩

theorem quotientPlusNegation_same_end :
    quotientPlusNegation.Plain ∧
    Named (storeOf 2) 0 knowing (machineOf 2) quotientPlusNegation ∧
    (machineOf 2).running = true ∧ (machineOf 2).pc = knowing.code.size ∧
    ∃ c', Compiler.expr quotientPlusNegation knowing = .ok () c' ∧ c'.code.size = 7 ∧
      ∀ code, c'.Begins code →
        SameEnd (storeOf 2) 0 quotientPlusNegation knowing c' code (machineOf 2) := by
  have plain : quotientPlusNegation.Plain :=
    ⟨by decide, ⟨by decide, Option.some_ne_none _, trivial⟩, .inr rfl, trivial⟩
  have named : Named (storeOf 2) 0 knowing (machineOf 2) quotientPlusNegation := by
    intro n line mem
    simp only [quotientPlusNegation, Expr.steps, List.mem_cons, List.mem_append, reduceCtorEq,
      Expr.name.injEq, List.not_mem_nil, or_false, false_or, or_self] at mem
    obtain ⟨rfl, -⟩ := mem
    have finds : Finds knowing (machineOf 2).stack (machineOf 2).frames (machineOf 2).globals "x"
        (whole 2) := .global (x := ⟨"x", false, 0, 0⟩) (j := 0) rfl rfl rfl
    exact ⟨whole 2, getVar_storeOf 2, rfl, finds.supplies⟩
  exact ⟨plain, named, rfl, rfl, plain_same_end plain named rfl rfl⟩

end Simulation

end ScriptLang
