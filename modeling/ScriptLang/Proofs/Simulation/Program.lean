import Mathlib
import ScriptLang.Proofs.Parse.Sound
import ScriptLang.Proofs.Simulation.TopLevel

/-!
Compiled programs do on the machine what the evaluator does.

The restrictions are those under which the two languages are one. The compiler passes over counted
loops, evaluates both operands of `and` and `or`, and decides when it compiles a function which of
its names are globals.
-/

namespace ScriptLang.Simulation

open Compiler (lastIndexed? Emits first AtTop)
open Machine (Runs Located started)

variable {code : Array Instr} {labels : Labels} {Top : String → Prop} {b : Block} {s : Stmt}

/-! ### Shapes -/

/-- The tests of `alike` that do not depend on where a statement stands. -/
def plainly (s : Stmt) : Bool :=
  !s.isCount && s.exprsAll (fun e => !e.isLogical) && s.endsPlainly && s.loopsPlainly

theorem alike_eq (k : Bool) : alike k = fun s => Compiler.inner k s && plainly s := by
  funext s
  simp only [alike, plainly, Bool.and_assoc]

theorem alikeTop_of_plainly (all : s.all plainly = true) (plain : s.isLocal = false)
    (funcs : s.allInside (fun s => !s.isFunc) = true)
    (rets : (s.isFunc || s.all fun s => !s.isRet) = true) : alikeTop s = true := by
  rw [alikeTop, plain]
  cases func : s.isFunc with
  | true =>
    cases s with
    | func name ps body line =>
      simp only [Stmt.all, Bool.and_eq_true] at all
      simp only [Stmt.allInside] at funcs
      simp [Stmt.allInside, alike_eq, Block.all_and, Compiler.inner_true, funcs, all.2]
    | _ => cases func
  | false =>
    have none : s.all (fun s => !s.isFunc) = true := by
      rw [Stmt.all_eq, funcs, func]
      rfl
    rw [func, Bool.false_or] at rets
    simp [alike_eq, Stmt.all_and, Compiler.inner_false, none, rets, all]

/-! ### The first state -/

theorem rooted_root : Rooted (stage code labels Top first []) Forest.root [] := by
  have only : ∀ {j s}, (Forest.root : Forest Value Closure).scopes[j]? = some s →
      j = 0 ∧ s = ⟨[], [], none⟩ := by
    intro j s found
    cases j with
    | zero =>
      cases found
      exact ⟨rfl, rfl⟩
    | succ j => simp [Forest.root] at found
  refine ⟨rfl, rfl, ?_, ?_, ?_, ?_, nofun, ?_⟩
  · intro j fs funcs ne
    obtain ⟨s, found, -⟩ := Option.map_eq_some_iff.mp funcs
    exact absurd (only found).1 ne
  · intro j n o entry
    obtain ⟨s, found, bound⟩ := Option.bind_eq_some_iff.mp entry
    rw [(only found).2] at bound
    cases bound
  · exact fun _ => rfl
  · intro n s i found
    cases found
  · intro i c found
    cases found

theorem onTop_first (located : Located code labels) :
    OnTop code labels Top first [] [] Forest.root [] where
  ok := ⟨located, nofun, fun known => absurd rfl known⟩
  tied := ⟨⟨rfl, ⟨nofun, nofun⟩, nofun, nofun, nofun⟩, trivial, rooted_root, rfl⟩
  top := ⟨Machine.layered_first, rfl, rfl⟩
  single := nofun
  declared := fun known => absurd rfl known
  before := nofun

/-! ### Whole programs -/

/-- A machine that has done what the evaluator has done. -/
structure Agrees (c : Compiler) (st : Store) (m : Machine) : Prop where
  output : m.output = st.output
  stack : m.stack = #[]
  frames : m.frames = []
  /-- In the slot of a global is what the outermost scope binds its name to. -/
  globals : ∀ (i : Nat) s, c.globals[i]? = some s → ∃ v,
    st.forest.bound? 0 s.name = some (some v) ∧ m.global? (.index i) = some (.value v)
  /-- The outermost scope binds no other names. -/
  names : ∀ n, st.forest.binds 0 n = true ↔ ∃ s ∈ c.globals, s.name = n
  /-- The machine has no other globals. -/
  slots : ∀ e ∈ m.globals, ∃ i : Nat, i < c.globals.size ∧ e.1 = .index i

theorem OnTop.agrees {c : Compiler} {before : List String} {funcs : Table (Option Closure)}
    {st : Store} {gl : List (Slot × Cell)} {m : Machine}
    (on : OnTop code labels Top c before funcs st.forest gl) (output : m.output = st.output)
    (stack : m.stack = #[]) (frames : m.frames = []) (globals : m.globals = gl) :
    Agrees c st m := by
  refine ⟨output, stack, frames, ?_, on.tied.rooted.binds_iff, ?_⟩
  · intro i s found
    obtain ⟨v, entry, held⟩ := on.tied.rooted.held (on.single found)
    refine ⟨v, entry, ?_⟩
    rw [Machine.global?, globals]
    exact held
  · rw [globals]
    exact fun e mem => on.tied.rooted.slot mem

/-- What the statements of a program are, taken one by one. -/
theorem all_alikeTop (noCount : (b.all fun s => !s.isCount) = true)
    (noLogical : (b.allExprs fun e => !e.isLogical) = true) (funcs : b.funcsOnTop = true)
    (rets : b.retsInFuncs = true) (locals : b.localsInBlocks = true)
    (ends : b.all Stmt.endsPlainly = true) : b.stmts.all alikeTop = true := by
  rw [Block.localsInBlocks, Bool.and_eq_true] at locals
  have plain : b.all plainly = true := by
    have eq : plainly = fun s => !s.isCount && s.exprsAll (fun e => !e.isLogical) &&
      s.endsPlainly && s.loopsPlainly := rfl
    rw [Block.allExprs] at noLogical
    rw [eq, Block.all_and, Block.all_and, Block.all_and, noCount, noLogical, ends, locals.2]
    rfl
  simp only [Block.funcsOnTop, Block.retsInFuncs, List.all_eq_true, Bool.not_eq_true']
    at funcs rets locals ⊢
  intro s mem
  exact alikeTop_of_plainly (Block.all_iff.mp plain s mem) (locals.1 s mem) (funcs s mem)
    (rets s mem)

/-- A program that the evaluator executes to its end halts on the machine once it is compiled, with
the same output and the same globals. -/
theorem compiled_run_agrees {tokens : List Token} {b : Block} {cur : Cursor}
    {shorter : cur.size < tokens.length + 1} {c : Compiler} {fuel : Nat} {st : Store}
    (parsed : Parse.program tokens = .ok b cur shorter)
    (noCount : (b.all fun s => !s.isCount) = true)
    (noLogical : (b.allExprs fun e => !e.isLogical) = true)
    (funcs : b.funcsOnTop = true) (rets : b.retsInFuncs = true) (locals : b.localsInBlocks = true)
    (names : ∀ f ∈ b.funcNames, Compiler.Unreserved f) (settled : b.settled = true)
    (evaluated : Eval.program fuel 0 (.block b) .empty = .ok none st)
    (compiled : Compiler.generate (.block b) .empty = .ok () c) :
    ∃ n m, Machine.run n c.code.toList .empty = (.halted, m) ∧ Agrees c st m := by
  obtain ⟨ts, _, derived⟩ := Parse.block_derives ⟨shorter, parsed⟩
  have nested : b.allExprs Expr.nested = true := derived.nested fun _ _ eq => congrArg _ eq
  have fits := all_alikeTop noCount noLogical funcs rets locals derived.endsPlainly
  obtain ⟨c', emits, rfl⟩ := Compiler.emits_of_generate nested compiled
  obtain ⟨begun, located⟩ := Machine.start_compiled emits funcs names
  obtain ⟨_, evaluated, -⟩ := map_eq_ok.mp evaluated
  cases fuel with
  | zero =>
    rw [Eval.block] at evaluated
    cases evaluated
  | succ fuel =>
    rw [Eval.block] at evaluated
    have begins : (c'.add .halt).Begins (c'.add .halt).code := List.prefix_refl _
    have listed : ∀ x ∈ b.stmts.filterMap Stmt.sets?, x ∈ b.stmts.filterMap Stmt.sets? :=
      fun _ mem => mem
    obtain ⟨before, funcs', gl, on, run⟩ := (onTop_first located).stmts emits fits listed settled
      begins.of_add evaluated
    -- The first instruction is a label.
    have enter : Runs _ (started (c'.add .halt).code).labels ⟨0, #[], [], [], ""⟩
        (between first [] #[] [] [] "") :=
      Machine.runs_label (begins.of_add.of_prefix (emits.grown Machine.layered_first).code).fetch
    obtain ⟨n, halted⟩ := (enter.trans run).halts begins.fetch
    have on' := on.same ((Compiler.SameScope.refl c').add .halt).symbols
    refine ⟨n, (between c' [] #[] [] gl st.output).stopped (started (c'.add .halt).code).labels,
      ?_, on'.agrees rfl rfl rfl rfl⟩
    rw [Machine.run, begun]
    exact halted

/-- The tokens of a program whose function assigns to a global, keeps a variable from one round of a
loop to the next, hides its parameter in a branch and returns from there through a call of
itself. -/
def echo : List Token :=
  [⟨.identifier, "again", 1⟩, ⟨.assign, ":=", 1⟩, ⟨.kwTrue, "true", 1⟩, ⟨.identifier, "word", 2⟩,
    ⟨.assign, ":=", 2⟩, ⟨.string, "\"a\"", 2⟩, ⟨.kwFunc, "func", 3⟩, ⟨.identifier, "f", 3⟩,
    ⟨.lparen, "(", 3⟩, ⟨.identifier, "x", 3⟩, ⟨.rparen, ")", 3⟩, ⟨.kwWhile, "while", 4⟩,
    ⟨.identifier, "again", 4⟩, ⟨.kwDo, "do", 4⟩, ⟨.identifier, "y", 5⟩, ⟨.assign, ":=", 5⟩,
    ⟨.identifier, "x", 5⟩, ⟨.plus, "+", 5⟩, ⟨.string, "\"b\"", 5⟩, ⟨.kwIf, "if", 6⟩,
    ⟨.identifier, "x", 6⟩, ⟨.eqeq, "==", 6⟩, ⟨.string, "\"aa\"", 6⟩, ⟨.kwThen, "then", 6⟩,
    ⟨.kwLocal, "local", 7⟩, ⟨.identifier, "x", 7⟩, ⟨.assign, ":=", 7⟩, ⟨.identifier, "y", 7⟩,
    ⟨.identifier, "again", 8⟩, ⟨.assign, ":=", 8⟩, ⟨.kwFalse, "false", 8⟩, ⟨.kwRet, "ret", 9⟩,
    ⟨.identifier, "f", 9⟩, ⟨.lparen, "(", 9⟩, ⟨.identifier, "x", 9⟩, ⟨.rparen, ")", 9⟩,
    ⟨.kwEnd, "end", 10⟩, ⟨.identifier, "x", 11⟩, ⟨.assign, ":=", 11⟩, ⟨.identifier, "x", 11⟩,
    ⟨.plus, "+", 11⟩, ⟨.string, "\"a\"", 11⟩, ⟨.kwEnd, "end", 12⟩, ⟨.kwRet, "ret", 13⟩,
    ⟨.identifier, "x", 13⟩, ⟨.kwEnd, "end", 14⟩, ⟨.kwPrintln, "println", 15⟩,
    ⟨.identifier, "f", 15⟩, ⟨.lparen, "(", 15⟩, ⟨.identifier, "word", 15⟩, ⟨.rparen, ")", 15⟩]

/-- The body of the function. -/
def echoBody : Block :=
  .mk [.loop (.name "again" 4)
      (.mk [.assign (.name "y" 5)
          (.binary ⟨.plus, "+", 5⟩ (.name "x" 5) (.text "b" 5) 5) 5,
        .branch (.binary ⟨.eqeq, "==", 6⟩ (.name "x" 6) (.text "aa" 6) 6)
          (.mk [.assignLocal (.name "x" 7) (.name "y" 7) 7,
            .assign (.name "again" 8) (.bool false 8) 8,
            .ret (.call "f" [.name "x" 9] 9) 9] 9) none 10,
        .assign (.name "x" 11)
          (.binary ⟨.plus, "+", 11⟩ (.name "x" 11) (.text "a" 11) 11) 11] 11) 12,
    .ret (.name "x" 13) 13] 13

/-- The program that the tokens write. -/
def echoTree : Block :=
  .mk [.assign (.name "again" 1) (.bool true 1) 1, .assign (.name "word" 2) (.text "a" 2) 2,
    .func "f" [⟨"x", 3⟩] echoBody 3,
    .print (.call "f" [.name "word" 15] 15) (.str "\n") 15] 15

/-- The scopes and the output that its evaluation ends with. -/
def echoStore : Store :=
  ⟨⟨#[⟨[("again", some (.bool false)), ("word", some (.string "a"))],
        [("f", some ⟨"f", [⟨"x", 3⟩], echoBody, 0⟩)], none⟩,
      ⟨[("x", some (.string "aa"))], [], some 0⟩, ⟨[("y", some (.string "aab"))], [], some 1⟩,
      ⟨[], [], some 2⟩, ⟨[("x", some (.string "aab"))], [], some 2⟩,
      ⟨[("x", some (.string "aab"))], [], some 0⟩, ⟨[], [], some 5⟩]⟩, "aab\n"⟩

theorem echo_agrees :
    (∃ cur shorter, Parse.program echo = .ok echoTree cur shorter) ∧
      Eval.program 40 0 (.block echoTree) .empty = .ok none echoStore ∧
      ∃ c n m, Compiler.generate (.block echoTree) .empty = .ok () c ∧
        Machine.run n c.code.toList .empty = (.halted, m) ∧ Agrees c echoStore m := by
  have parsed : Parse.program echo = .ok echoTree ⟨echo.reverse, []⟩ (by decide) := by
    cbv
  have evaluated : Eval.program 40 0 (.block echoTree) .empty = .ok none echoStore := by
    cbv
  have names : ∀ f ∈ echoTree.funcNames, Compiler.Unreserved f := by
    intro f mem
    obtain rfl : f = "f" := List.mem_singleton.mp mem
    refine ⟨by decide, fun k same => ?_⟩
    have chars := congrArg (fun s => s.toList.head?) same
    simp [Compiler.labelName] at chars
  obtain ⟨c, compiled⟩ : ∃ c, Compiler.generate (.block echoTree) .empty = .ok () c :=
    ⟨_, by cbv⟩
  have noCount : (echoTree.all fun s => !s.isCount) = true := by decide
  have noLogical : (echoTree.allExprs fun e => !e.isLogical) = true := by decide
  have funcs : echoTree.funcsOnTop = true := by decide
  have rets : echoTree.retsInFuncs = true := by decide
  have locals : echoTree.localsInBlocks = true := by decide
  have settled : echoTree.settled = true := by decide +kernel
  obtain ⟨n, m, halted, agrees⟩ := compiled_run_agrees parsed noCount noLogical funcs rets locals
    names settled evaluated compiled
  exact ⟨⟨_, _, parsed⟩, evaluated, c, n, m, compiled, halted, agrees⟩

end ScriptLang.Simulation
