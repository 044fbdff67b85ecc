import Mathlib
import ScriptLang.Proofs.Code.Calls
import ScriptLang.Proofs.Code.Storage
import ScriptLang.Proofs.Machine.Safety

/-!
What a call reads as its parameters.

A call has its arguments as its first cells, and leaves them alone but for its own stores up to the
end of its body (`During.cell`). The compiler numbers the parameters after the locals that are live
where the function is declared. So the read of a parameter loads the argument that is as many places
further as there are such locals (`parameter_read`): the right one if there are none.
-/

namespace ScriptLang.Machine

open Compiler (first root Emits Reaches Decl Whole Intact Vars)

variable {code : Array Instr} {labels : Labels} {P : Spot → Prop} {p : Spot} {w : Watch}
  {m m' m₁ : Machine} {b own i : Nat}

/-! ### A set of spots for a program -/

/-- Every spot of a set leads into it, and calls are intact there. -/
def Closed (code : Array Instr) (labels : Labels) (top : Compiler.Site) (P : Spot → Prop) :
    Prop :=
  ∀ q, P q → Intact top q ∧ Goes code labels P q

theorem whole_root {block : Block} {c : Compiler} (h : Emits (.stmts block.stmts) first c)
    (once : (c.add .halt).labelsSet.Nodup) :
    Whole (c.add .halt).code (started (c.add .halt).code).labels (root block) c := by
  refine ⟨h, Compiler.layered_root block, ?_, Compiler.prefix_add c .halt, located_of_nodup once⟩
  intro s mem
  simp [root, first, Compiler.add, Compiler.empty] at mem

/-- A program runs at spots of a closed set. -/
theorem closed_of_whole {block : Block} {c : Compiler}
    (whole : Whole (c.add .halt).code labels (root block) c) :
    ∃ P, P ⟨0, 0, 0, 0, none⟩ ∧ Closed (c.add .halt).code labels (root block) P := by
  have begins : (c.add .halt).Begins (c.add .halt).code := List.prefix_refl _
  have label : (Compiler.empty.add (.label "START")).Begins (c.add .halt).code :=
    begins.of_add.of_prefix (whole.emits.code_prefix whole.layered)
  have start : Compiler.Flows (c.add .halt).code labels (Intact (root block)) (fun _ => False)
      ⟨0, 0, 0, 0, none⟩ :=
    Compiler.flows_step (fun _ _ _ _ owner => nomatch owner)
      (.plain (t := 0) (g := 0) label.fetch rfl (whole.flows rfl begins.fetch))
  rcases start with none | ⟨P, here, closed⟩
  · exact none.elim
  · refine ⟨P, here, fun q mem => ?_⟩
    obtain ⟨intact, goes⟩ := closed q mem
    exact ⟨intact, goes.mono fun r next => next.resolve_left id⟩

/-! ### The whole run -/

/-- The run of a program, watched as a call. -/
def Watch.program : Watch := ⟨[], 0, 0, rfl⟩

theorem stands_started (code : Array Instr) (P : Spot → Prop) :
    Stands (started code).labels P .program (started code) 0 0 ⟨0, 0, 0, 0, none⟩ :=
  ⟨rfl, rfl, nofun, nofun, .none, rfl, rfl, no_count⟩

/-- Before every fetch the machine stands at a spot. -/
theorem stands_of_fetches {block : Block} {top : Compiler.Site} {c : Compiler}
    (h : Emits (.stmts block.stmts) first c)
    (start : P ⟨0, 0, 0, 0, none⟩)
    (closed : Closed (c.add .halt).code (started (c.add .halt).code).labels top P)
    (fetches : Fetches (c.add .halt).code m) :
    ∃ b own p, P p ∧ Stands (started (c.add .halt).code).labels P .program m b own p := by
  induction fetches with
  | first started =>
    rw [start_emits h empty] at started
    cases started
    exact ⟨0, 0, _, start, stands_started _ P⟩
  | next _ done running ih =>
    obtain ⟨b, own, p, here, stands⟩ := ih
    obtain ⟨b', own', p', onto⟩ := stands.next (closed p here).2 done running (Nat.zero_le _)
    exact ⟨b', own', p', onto.spot, onto.stands⟩

/-! ### One call -/

/-- What a call leads to: the arguments are the cells of the call. -/
structure Called (labels : Labels) (P : Spot → Prop) (w : Watch) (m m' : Machine) (l : Label)
    (s args : Array Cell) (a own : Nat) : Prop where
  stack : m.stack = (s ++ args).push (.value (.number (.int args.size)))
  found : labels.lookup? l = some a
  spot : P ⟨a, args.size, 0, a, none⟩
  stack' : m'.stack = s ++ args
  stands : Stands labels P w m' s.size own ⟨a, args.size, 0, a, none⟩

theorem Stands.called {l : Label} (h : Stands labels P w m b own p) (goes : Goes code labels P p)
    (fetch : code[m.pc]? = some (.enter l)) (done : step code m = .ok () m') :
    ∃ s args a, Called labels P w m m' l s args a own := by
  rw [step_eq fetch] at done
  rw [h.pc] at fetch
  cases goes with
  | @enter pc f n o l' a j fetch' found entry back =>
    cases fetch'.symm.trans fetch
    have onto : Onto code labels P w m own m' (b + f + n) own ⟨a, j, 0, a, none⟩ :=
      h.enter found done entry back
    obtain ⟨s, top, -, size⟩ := h.counted
    rw [execute_enter (m := m.fetched) top h.level (by omega) (h.labels ▸ found)] at done
    cases done
    have below : (s.take (b + f + n)).size = b + f + n := size_take (by omega)
    have split : s.take (b + f + n) ++ s.drop (b + f + n) = s := by
      have le : b + f + n ≤ s.size := by omega
      simp [Nat.max_eq_right le]
    have count : (s.drop (b + f + n)).size = j := by
      simp
      omega
    refine ⟨s.take (b + f + n), s.drop (b + f + n), a, ?_⟩
    refine ⟨?_, found, ?_, split.symm, ?_⟩
    · rw [split, count]
      exact top
    · rw [count]
      exact entry
    · rw [below, count]
      exact onto.stands
  | plain fetch' effect =>
    cases fetch'.symm.trans fetch
    cases effect
  | counts fetch' | frees fetch' | jump fetch' | jumpIfZero fetch' | leave fetch' | halt fetch' =>
    cases fetch'.symm.trans fetch

/-- The running call is watched from here on. -/
theorem Stands.rewatch (h : Stands labels P w m b own p) :
    Stands labels P ⟨m.frames, b, p.owner, h.pending.based⟩ m b p.floor p :=
  ⟨h.level, h.labels, h.values, h.globals, .none, h.height, h.pc, h.count⟩

/-- The states of a machine while a call runs that began at `m₁`, and has not stored into its cell
`i` yet. -/
inductive During (code : Array Instr) (m₁ : Machine) (i : Nat) : Machine → Prop where
  | here : During code m₁ i m₁
  | next {m m' : Machine} : During code m₁ i m →
      ¬ (m.frames = m₁.frames ∧ code[m.pc]? = some (.storeLocal (.index i))) →
      step code m = .ok () m' → m'.running = true → m₁.frames.length ≤ m'.frames.length →
      During code m₁ i m'

/-- While a call runs, its cell is as it was, or the body of the function is over. -/
theorem During.cell {top : Compiler.Site} {n : Nat} (during : During code m₁ i m)
    (closed : Closed code labels top P) (frames : w.frames = m₁.frames) (spot : P p)
    (stands : Stands labels P w m₁ b n p) :
    ∃ b own p, P p ∧ Stands labels P w m b own p ∧
      (own = 0 ∨ own = n ∧ (i < n → m.stack[w.base + i]? = m₁.stack[w.base + i]?)) := by
  induction during with
  | here => exact ⟨b, n, p, spot, stands, .inr ⟨rfl, fun _ => rfl⟩⟩
  | @next m m' _ other done running deep ih =>
    obtain ⟨b', own, q, here, stands', cell⟩ := ih
    obtain ⟨b'', own', q', onto⟩ := stands'.next (closed q here).2 done running (frames ▸ deep)
    refine ⟨b'', own', q', onto.spot, onto.stands, ?_⟩
    by_cases gone : own' = 0
    · exact .inl gone
    · obtain rfl := onto.floor.resolve_right gone
      obtain ⟨rfl, kept⟩ := cell.resolve_left gone
      refine .inr ⟨rfl, fun lt => (onto.keeps i lt ?_).trans (kept lt)⟩
      intro level store
      obtain ⟨same, -⟩ := stands'.pending.here level
      exact other ⟨same.trans frames, store⟩

/-! ### Reads of parameters -/

/-- A read of a parameter in the body of a function of a program: the function, the number of the
parameter, and the state in which the read is compiled. -/
structure ParamRead (block : Block) (f : Decl) (i : Nat) (d : Compiler) : Prop where
  declared : Reaches (root block) f.site
  distinct : (f.params.map (·.name)).Nodup
  /-- The name refers to the same variable as at the start of the body. -/
  read : ∃ x line vs, f.params[i]? = some x ∧
    Reaches f.inner ⟨.expr (.name x.name line), vs, d⟩ ∧
    vs.find? x.name = f.inner.vars.find? x.name

/-- In a run of some code the machine calls a function. -/
structure Enters (code : Array Instr) (f : Decl) (m m' : Machine) : Prop where
  fetches : Fetches code m
  fetch : code[m.pc]? = some (.enter f.name)
  done : step code m = .ok () m'

section
variable {block : Block} {c d e : Compiler} {f : Decl}

/-- The load of a parameter, before the end of the body. -/
theorem ParamRead.fetch (h : ParamRead block f i d) (emits : Emits (.stmts block.stmts) first c)
    (body : Emits f.inner.part f.inner.state e) (begins : e.Begins code) :
    code[d.code.size]? = some (.loadLocal (.index (f.vars.cells + i : Nat))) ∧
      d.code.size < e.code.size := by
  obtain ⟨x, line, vs, param, read, same⟩ := h.read
  have declared := h.declared.down f.child
  obtain ⟨e', inner⟩ := declared.reached emits (Compiler.layered_root block)
  obtain ⟨d', deeper⟩ := read.reached body inner.layered
  obtain ⟨v, load, found, added, direct, -⟩ := ((declared.trans read).fits emits).reads deeper.emits
  have address : f.inner.vars.find? x.name =
      some ⟨x.name, .cell (f.vars.cells + i), false⟩ :=
    Vars.find?_withParams h.distinct param
  have lies : (d.add load).code.toList <+: e.code.toList := by
    rw [← added]
    exact deeper.after
  rw [same, address] at found
  cases found
  constructor
  · rw [(begins.of_prefix lies).fetch, direct rfl]
    rfl
  · have le := lies.length_le
    rw [Array.length_toList, Array.length_toList, Compiler.size_add] at le
    exact le

/-- A call of a function begins at its entry, with one argument for each parameter. -/
theorem Enters.called (h : Enters (c.add .halt).code f m m')
    (whole : Whole (c.add .halt).code (started (c.add .halt).code).labels (root block) c)
    (declared : Reaches (root block) f.site) (body : Emits f.inner.part f.inner.state e)
    (start : P ⟨0, 0, 0, 0, none⟩)
    (closed : Closed (c.add .halt).code (started (c.add .halt).code).labels (root block) P) :
    ∃ own s args, Called (started (c.add .halt).code).labels P .program m m' f.name s args
      f.entry own ∧ args.size = f.params.length := by
  obtain ⟨b, own, p, here, stands⟩ := stands_of_fetches whole.emits start closed h.fetches
  obtain ⟨s, args, a, call⟩ := stands.called (closed p here).2 h.fetch h.done
  obtain rfl : a = f.entry := by
    have found := whole.located (whole.fetch_entry declared)
    rw [call.found] at found
    exact Option.some.inj found
  obtain ⟨f', inner⟩ := declared.reached whole.emits whole.layered
  have size := f.size_lt_inner
  have le := (body.code_prefix (Decl.layered_inner inner.layered)).length_le
  rw [Array.length_toList, Array.length_toList] at le
  exact ⟨own, s, args, call,
    (closed _ call.spot).1 f e declared body rfl (Nat.lt_of_lt_of_le size le)⟩

end

/-- Wherever a function is declared, the read of a parameter in a call of it loads the cell of the
call with the number of the parameter, counted from the locals that are live where the function is
declared. As long as the call has not stored into that cell, it is the argument with that number. -/
theorem parameter_read {tokens : List Token} {cur : Cursor}
    {shorter : cur.size < tokens.length + 1} {block : Block} {c d : Compiler} {f : Decl}
    {m₀ : Machine} (parsed : Parse.program tokens = .ok block cur shorter)
    (compiled : Compiler.generate (.block block) .empty = .ok () c) (once : c.labelsSet.Nodup)
    (read : ParamRead block f i d) (enters : Enters c.code f m₀ m₁) :
    ∃ s args : Array Cell,
      m₀.stack = (s ++ args).push (.value (.number (.int f.params.length))) ∧
      args.size = f.params.length ∧
      ∀ m, During c.code m₁ (f.vars.cells + i) m → m.pc = d.code.size →
        (m.frames = m₁.frames → ∀ v, args[f.vars.cells + i]? = some v →
          step c.code m = .ok () (m.fetched.withStack (m.stack.push v))) ∧
        ∀ m', step c.code m = .ok () m' → ∃ base v, m.Based base ∧
          m.stack[base + (f.vars.cells + i)]? = some v ∧
          m' = m.fetched.withStack (m.stack.push v) := by
  obtain ⟨ts, _, derived⟩ := Parse.block_derives ⟨shorter, parsed⟩
  have nested : block.allExprs Expr.nested = true := derived.nested fun _ _ eq => congrArg _ eq
  obtain ⟨c', emits, rfl⟩ := Compiler.emits_of_generate nested compiled
  have whole := whole_root emits once
  obtain ⟨P, start, closed⟩ := closed_of_whole whole
  obtain ⟨f', inner⟩ := read.declared.reached emits (Compiler.layered_root block)
  obtain ⟨e, body, rfl⟩ := Decl.emits_inner inner.emits
  have begins : e.Begins (c'.add .halt).code :=
    ((Compiler.prefix_funcEnd e _).trans inner.after).trans (Compiler.prefix_add c' .halt)
  obtain ⟨fetch, inBody⟩ := read.fetch emits body begins
  obtain ⟨own, s, args, call, count⟩ := enters.called whole read.declared body start closed
  refine ⟨s, args, count ▸ call.stack, count, ?_⟩
  intro m during pc
  obtain ⟨b, own', p, here, stands, cell⟩ :=
    during.cell closed rfl call.spot call.stands.rewatch
  rw [step_eq (pc ▸ fetch)]
  constructor
  · intro frames v arg
    obtain ⟨lt, -⟩ := Array.getElem?_eq_some_iff.mp arg
    obtain ⟨-, rfl, owner, floor⟩ := stands.pending.here (congrArg List.length frames)
    -- The body is not over yet, so the arguments are still left alone.
    have intact := (closed p here).1 f e read.declared body owner
      (by rw [← stands.pc, pc]; exact inBody)
    obtain ⟨-, kept⟩ := cell.resolve_left (by omega)
    refine execute_loadLocal (m := m.fetched) stands.pending.based ?_ stands.level.fetched
    change m.stack[f.vars.cells + i + s.size]? = some v
    rw [Nat.add_comm, kept lt, call.stack', Array.getElem?_append_right (Nat.le_add_right _ _),
      Nat.add_sub_cancel_left]
    exact arg
  · intro m' loaded
    obtain ⟨v, found, rfl⟩ :=
      loadLocal_eq_ok (m := m.fetched) stands.pending.based stands.level.fetched loaded
    refine ⟨b, v, stands.pending.based, ?_, rfl⟩
    rw [Nat.add_comm]
    exact found

/-- The tokens of a block that declares a function after a local, and calls it. -/
def shifted : List Token :=
  [⟨.kwIf, "if", 1⟩, ⟨.kwTrue, "true", 1⟩, ⟨.kwThen, "then", 1⟩, ⟨.kwLocal, "local", 2⟩,
    ⟨.identifier, "a", 2⟩, ⟨.assign, ":=", 2⟩, ⟨.kwFalse, "false", 2⟩, ⟨.kwFunc, "func", 3⟩,
    ⟨.identifier, "f", 3⟩, ⟨.lparen, "(", 3⟩, ⟨.identifier, "x", 3⟩, ⟨.comma, ",", 3⟩,
    ⟨.identifier, "y", 3⟩, ⟨.rparen, ")", 3⟩, ⟨.kwRet, "ret", 3⟩, ⟨.identifier, "x", 3⟩,
    ⟨.kwEnd, "end", 3⟩, ⟨.kwPrintln, "println", 4⟩, ⟨.identifier, "f", 4⟩, ⟨.lparen, "(", 4⟩,
    ⟨.kwTrue, "true", 4⟩, ⟨.comma, ",", 4⟩, ⟨.kwFalse, "false", 4⟩, ⟨.rparen, ")", 4⟩,
    ⟨.kwEnd, "end", 5⟩]

/-- The program that the tokens write. -/
def shiftedTree : Block :=
  .mk [.branch (.bool true 1)
    (.mk [.assignLocal (.name "a" 2) (.bool false 2) 2,
      .func "f" [⟨"x", 3⟩, ⟨"y", 3⟩] (.mk [.ret (.name "x" 3) 3] 3) 3,
      .print (.call "f" [.bool true 4, .bool false 4] 4) (.str "\n") 4] 4) none 5] 5

/-- The code of the program. -/
def shiftedCode : Array Instr :=
  #[.label "START", .push (.value (.bool true)), .jumpIfZero "LBL2", .label "LBL1",
    .push (.value (.bool false)), .setSlot (.str "0 (a)"), .jump "LBL4", .label "f",
    .setSlot (.str "1 (x)"), .setSlot (.str "2 (y)"), .loadLocal (.index 1), .leave, .pop, .pop,
    .push (.value .nothing), .leave, .label "LBL4", .push (.value (.bool true)),
    .push (.value (.bool false)), .push (.value (.number (.int 2))), .enter "f", .println, .pop,
    .jump "LBL3", .label "LBL2", .label "LBL3", .halt]

/-- The function, after one local. -/
def shiftedDecl : Decl where
  name := "f"
  params := [⟨"x", 3⟩, ⟨"y", 3⟩]
  body := .mk [.ret (.name "x" 3) 3] 3
  line := 3
  vars := ⟨[⟨"a", .cell 0, false⟩], false⟩
  state := ⟨shiftedCode.take 6, #[⟨"a", false, 1, 0⟩], #[], #[], 1, 3⟩

/-- The machine at an instruction of the program. -/
def shiftedAt (pc : Nat) (frames : List Frame) (stack : Array Cell) : Machine :=
  { started shiftedCode with pc, frames, stack, sp := stack.size }

/-- The machine before the call. -/
def shiftedBefore : Machine :=
  shiftedAt 20 [] #[.value (.bool false), .value (.bool true), .value (.bool false),
    .value (.number (.int 2))]

/-- The machine in the call, at an instruction of the function. -/
def shiftedInside (pc : Nat) : Machine :=
  shiftedAt pc [⟨"f", 21, .int 1⟩]
    #[.value (.bool false), .value (.bool true), .value (.bool false)]

theorem shifted_parsed :
    Parse.program shifted = .ok shiftedTree ⟨shifted.reverse, []⟩ (by decide) := by
  cbv

theorem shifted_compiled : Compiler.generate (.block shiftedTree) .empty =
    .ok () ⟨shiftedCode, #[], #[], #[], 0, 4⟩ := by
  cbv

theorem shifted_read : ParamRead shiftedTree shiftedDecl 0 shiftedDecl.inner.state := by
  refine ⟨?_, by decide, ⟨"x", 3⟩, 3, shiftedDecl.inner.vars, rfl, ?_, rfl⟩
  · exact .child .first <| .child (.thenBlock rfl) <| .child (.rest rfl) <| .child .first (.refl _)
  · exact .child .first <| .child .returned (.refl _)

theorem shifted_enters : Enters shiftedCode shiftedDecl shiftedBefore (shiftedInside 7) := by
  refine ⟨?_, rfl, rfl⟩
  have begun : Fetches shiftedCode (shiftedAt 0 [] #[]) := .first rfl
  have inBlock : Fetches shiftedCode (shiftedAt 3 [] #[]) :=
    ((begun.next rfl rfl).next rfl rfl).next rfl rfl
  have declared : Fetches shiftedCode (shiftedAt 16 [] #[.value (.bool false)]) :=
    (((inBlock.next rfl rfl).next rfl rfl).next rfl rfl).next rfl rfl
  exact (((declared.next rfl rfl).next rfl rfl).next rfl rfl).next rfl rfl

theorem shifted_during (i : Nat) : During shiftedCode (shiftedInside 7) i (shiftedInside 10) := by
  have first : During shiftedCode (shiftedInside 7) i (shiftedInside 8) :=
    During.here.next nofun rfl rfl (Nat.le_refl _)
  have second : During shiftedCode (shiftedInside 7) i (shiftedInside 9) :=
    first.next nofun rfl rfl (Nat.le_refl _)
  exact second.next nofun rfl rfl (Nat.le_refl _)

/-- The first parameter is read from the cell of the second argument. -/
theorem shifted_reads_second :
    (∃ cur shorter, Parse.program shifted = .ok shiftedTree cur shorter) ∧
      ∃ c, Compiler.generate (.block shiftedTree) .empty = .ok () c ∧ c.labelsSet.Nodup ∧
        ParamRead shiftedTree shiftedDecl 0 shiftedDecl.inner.state ∧
        Enters c.code shiftedDecl shiftedBefore (shiftedInside 7) ∧
        ∃ s args : Array Cell,
          shiftedBefore.stack = (s ++ args).push (.value (.number (.int 2))) ∧
          args.size = 2 ∧ args[1]? = some (.value (.bool false)) ∧
          step c.code (shiftedInside 10) = .ok () ((shiftedInside 11).withStack
            ((shiftedInside 10).stack.push (.value (.bool false)))) := by
  have once : (Compiler.mk shiftedCode #[] #[] #[] 0 4).labelsSet.Nodup := by decide
  refine ⟨⟨_, _, shifted_parsed⟩, _, shifted_compiled, once, shifted_read, shifted_enters, ?_⟩
  obtain ⟨s, args, stack, count, reads⟩ :=
    parameter_read shifted_parsed shifted_compiled once shifted_read shifted_enters
  have cells := congrArg Array.pop stack
  rw [Array.pop_push] at cells
  have count : args.size = 2 := count
  have size : 3 = s.size + args.size := (congrArg Array.size cells).trans Array.size_append
  have below : s.size = 1 := by omega
  have arg : args[1]? = some (.value (.bool false)) := by
    have last := congrArg (fun cells : Array Cell => cells[2]?) cells
    rw [Array.getElem?_append_right (by omega), below] at last
    exact last.symm
  exact ⟨s, args, stack, count, arg, (reads _ (shifted_during 1) rfl).1 rfl _ arg⟩

/-- The argument for the first parameter is true, and what the read of it pushes is false. -/
theorem shifted_mixed :
    (∃ cur shorter, Parse.program shifted = .ok shiftedTree cur shorter) ∧
      ∃ c, Compiler.generate (.block shiftedTree) .empty = .ok () c ∧ c.labelsSet.Nodup ∧
        ParamRead shiftedTree shiftedDecl 0 shiftedDecl.inner.state ∧
        Enters c.code shiftedDecl shiftedBefore (shiftedInside 7) ∧
        (∃ s args : Array Cell,
          shiftedBefore.stack = (s ++ args).push (.value (.number (.int 2))) ∧
          args.size = 2 ∧ args[0]? = some (.value (.bool true))) ∧
        (∀ i, During c.code (shiftedInside 7) i (shiftedInside 10)) ∧
        (shiftedInside 10).pc = shiftedDecl.inner.state.code.size ∧
        step c.code (shiftedInside 10) = .ok () ((shiftedInside 11).withStack
          ((shiftedInside 10).stack.push (.value (.bool false)))) ∧
        (run 30 c.code.toList empty).2.output = "false\n" := by
  refine ⟨⟨_, _, shifted_parsed⟩, _, shifted_compiled, by decide, shifted_read, shifted_enters,
    ?_, shifted_during, rfl, rfl, by cbv⟩
  exact ⟨#[.value (.bool false)], #[.value (.bool true), .value (.bool false)], rfl, rfl, rfl⟩

end ScriptLang.Machine
