import Mathlib
import ScriptLang.Proofs.Code.Targets
import ScriptLang.Proofs.Machine.Start
import ScriptLang.Proofs.Parse.Sound

/-!
Where the jumps and calls of a compiled program lead.

A jump or a call goes to the place where its label is set last. A label can be set more than once:
functions of one name can be declared in blocks apart, and a function can bear the name of a
numbered label. A name that is declared at most once, and is not one that the compiler gives to
labels of its own, is the label of just one place (`target_found`).
-/

namespace ScriptLang.Machine

open Compiler (Emits first labelName labelRange labelOf? jumpOf? callOf? seen Unreserved)

variable {c : Compiler} {ss : List Stmt} {l : String}

/-- The label that an instruction leads to. -/
def targetOf? : Instr → Option Label
  | .jump label | .jumpIfZero label | .enter label => some label
  | _ => none

/-- An instruction leads to a name as a jump or as a call. -/
theorem jump_or_call {i : Instr} (target : targetOf? i = some l) :
    jumpOf? i = some l ∨ callOf? i = some l := by
  cases i with
  | jump label | jumpIfZero label =>
    cases target
    exact .inl rfl
  | enter label =>
    cases target
    exact .inr rfl
  | _ => cases target

/-- An instruction of compiled code leads to a name. -/
theorem target_textual {i : Nat} {label : Label} (emits : Emits (.stmts ss) first c)
    (target : (c.add .halt).code[i]?.bind targetOf? = some label) :
    ∃ name : String, label = name := by
  obtain ⟨x, place, leads⟩ := Option.bind_eq_some_iff.mp target
  have text : textual x = true := allTextual_compiled emits x (Array.mem_of_getElem? place)
  cases label with
  | text name => exact ⟨name, rfl⟩
  | other d =>
    cases x with
    | jump label | jumpIfZero label | enter label =>
      cases leads
      cases text
    | _ => cases leads

/-- How many calls there are before an instruction. -/
def callsBefore (code : Array Instr) (i : Nat) : Nat :=
  ((code.toList.take i).filterMap callOf?).length

/-- How often a label is set in a program. -/
theorem count_labels (emits : Emits (.stmts ss) first c) (l : String) :
    (c.add .halt).labelsSet.count l =
      ["START"].count l + (labelRange 0 c.labels).count l + (Stmt.declaredBy ss).count l := by
  obtain ⟨ls, js, puts, owns⟩ := emits.sets
  have halted : (c.add .halt).labelsSet = ["START"] ++ ls := by
    rw [Compiler.labelsSet_add, puts.labels]
    exact List.append_nil _
  rw [halted, List.count_append, owns.labels, Nat.add_assoc]
  rfl

theorem nodup_labelRange (lo hi : Nat) : (labelRange lo hi).Nodup :=
  List.Pairwise.map labelName (fun _ _ ne same => ne (Compiler.labelName_inj same))
    List.nodup_range'

theorem labelName_of_mem {lo hi : Nat} (mem : l ∈ labelRange lo hi) : ∃ k, l = labelName k := by
  obtain ⟨k, -, rfl⟩ := List.mem_map.mp mem
  exact ⟨k, rfl⟩

/-- A jump leads to a label that is set once, if no function bears its name. -/
theorem count_of_jump (emits : Emits (.stmts ss) first c) (jump : l ∈ seen jumpOf? (c.add .halt))
    (free : l ∈ Stmt.declaredBy ss → Unreserved l) : (c.add .halt).labelsSet.count l = 1 := by
  obtain ⟨ls, js, puts, owns⟩ := emits.sets
  have mem : l ∈ labelRange 0 c.labels := by
    rw [Compiler.seen_add_none rfl, puts.jumps] at jump
    exact owns.jumps l jump
  obtain ⟨k, rfl⟩ := labelName_of_mem mem
  have start : ["START"].count (labelName k) = 0 :=
    List.count_eq_zero.mpr fun mem => Compiler.start_ne_labelName k (List.mem_singleton.mp mem).symm
  have declared : (Stmt.declaredBy ss).count (labelName k) = 0 :=
    List.count_eq_zero.mpr fun mem => (free mem).2 k rfl
  rw [count_labels emits, start, declared, (nodup_labelRange 0 c.labels).count, if_pos mem]

/-- A function that is declared once has a label that is set once, if its name is no other label. -/
theorem count_of_declared (emits : Emits (.stmts ss) first c) (mem : l ∈ Stmt.declaredBy ss)
    (once : (Stmt.declaredBy ss).count l ≤ 1) (free : Unreserved l) :
    (c.add .halt).labelsSet.count l = 1 := by
  have start : ["START"].count l = 0 :=
    List.count_eq_zero.mpr fun mem => free.1 (List.mem_singleton.mp mem)
  have numbered : (labelRange 0 c.labels).count l = 0 := by
    refine List.count_eq_zero.mpr fun mem => ?_
    obtain ⟨k, rfl⟩ := labelName_of_mem mem
    exact free.2 k rfl
  have pos := List.count_pos_iff.mpr mem
  rw [count_labels emits, start, numbered]
  omega

/-- Every call in a program refers to a declaration of its name. -/
theorem resolved_calls (emits : Emits (.stmts ss) first c) : ∀ x ∈ Stmt.callsBy [] 0 ss,
    ∃ k, x.2 = some k ∧ (Stmt.declaredBy ss)[k]? = some x.1 :=
  emits.resolved ⟨layered_first, nofun, nofun⟩ (List.prefix_refl _)

theorem seen_calls_eq (emits : Emits (.stmts ss) first c) :
    seen callOf? (c.add .halt) = (Stmt.callsBy [] 0 ss).map Prod.fst :=
  (Compiler.seen_add_none rfl).trans (emits.seen_calls [] 0)

/-- The label of a jump or a call is set once. -/
theorem count_of_target {i : Nat} (emits : Emits (.stmts ss) first c)
    (target : (c.add .halt).code[i]?.bind targetOf? = some l)
    (once : (Stmt.declaredBy ss).count l ≤ 1) (free : l ∈ Stmt.declaredBy ss → Unreserved l) :
    (c.add .halt).labelsSet.count l = 1 := by
  obtain ⟨x, place, leads⟩ := Option.bind_eq_some_iff.mp target
  have mem := Array.mem_toList_iff.mpr (Array.mem_of_getElem? place)
  rcases jump_or_call leads with jump | call
  · exact count_of_jump emits (List.mem_filterMap.mpr ⟨x, mem, jump⟩) free
  · have called : l ∈ seen callOf? (c.add .halt) := List.mem_filterMap.mpr ⟨x, mem, call⟩
    rw [seen_calls_eq emits] at called
    obtain ⟨y, mem, rfl⟩ := List.mem_map.mp called
    obtain ⟨k, -, declared⟩ := resolved_calls emits y mem
    have mem := List.mem_of_getElem? declared
    exact count_of_declared emits mem once (free mem)

/-- What an element shows stands in the view after what the elements before it show. -/
theorem filterMap_at {α β : Type} {view : α → Option β} {xs : List α} {i : Nat} {x : α} {y : β}
    (place : xs[i]? = some x) (shown : view x = some y) :
    (xs.filterMap view)[((xs.take i).filterMap view).length]? = some y := by
  obtain ⟨lt, eq⟩ := List.getElem?_eq_some_iff.mp place
  have split : xs.filterMap view =
      (xs.take i).filterMap view ++ y :: (xs.drop (i + 1)).filterMap view := by
    rw [← List.filterMap_cons_some shown, ← eq, ← List.drop_eq_getElem_cons lt,
      ← List.filterMap_append, List.take_append_drop]
  rw [split, List.getElem?_append_right (Nat.le_refl _), Nat.sub_self]
  rfl

/-- What occurs once does not occur again later. -/
theorem index_le {xs : List String} {i j : Nat} {x : String} (once : xs.count x ≤ 1)
    (left : xs[i]? = some x) (right : xs[j]? = some x) : i ≤ j := by
  have later : x ∉ (xs.drop (j + 1)).filterMap some :=
    not_mem_later right rfl (by rwa [List.filterMap_some])
  rw [List.filterMap_some] at later
  refine Nat.le_of_not_lt fun lt => later (List.mem_of_getElem? (i := i - (j + 1)) ?_)
  rw [List.getElem?_drop, Nat.add_sub_cancel' lt, left]

/-- A call refers to the only declaration of its name. -/
theorem call_refers {i : Nat} {name : String} (emits : Emits (.stmts ss) first c)
    (call : (c.add .halt).code[i]? = some (.enter name))
    (once : (Stmt.declaredBy ss).count name ≤ 1) :
    ∃ k, (Stmt.callsBy [] 0 ss)[callsBefore (c.add .halt).code i]? = some (name, some k) ∧
      ∀ j, (Stmt.declaredBy ss)[j]? = some name ↔ j = k := by
  rw [← Array.getElem?_toList] at call
  have shown : (seen callOf? (c.add .halt))[_]? = some name := filterMap_at call rfl
  rw [seen_calls_eq emits, List.getElem?_map] at shown
  obtain ⟨x, found, rfl⟩ := Option.map_eq_some_iff.mp shown
  obtain ⟨k, number, declared⟩ := resolved_calls emits x (List.mem_of_getElem? found)
  refine ⟨k, found.trans (by rw [← number]), fun j => ⟨fun other => ?_, ?_⟩⟩
  · exact Nat.le_antisymm (index_le once other declared) (index_le once declared other)
  · rintro rfl
    exact declared

/-- A label that is set is set somewhere. -/
theorem place_of_label (set : c.labelsSet.count l = 1) :
    ∃ a : Nat, c.code[a]? = some (.label l) := by
  have mem : l ∈ c.labelsSet := List.count_pos_iff.mp (by omega)
  obtain ⟨x, mem, sets⟩ := List.mem_filterMap.mp mem
  obtain ⟨a, lt, eq⟩ := Array.mem_iff_getElem.mp (Array.mem_toList_iff.mp mem)
  refine ⟨a, Array.getElem?_eq_some_iff.mpr ⟨lt, eq.trans ?_⟩⟩
  cases x with
  | label label =>
    cases label with
    | text name =>
      cases sets
      rfl
    | other d => cases sets
  | _ => cases sets

/-- A jump or a call of a compiled program leads to a name. If that is declared at most once as a
function, and then is not kept for labels, there is one label to go to. A call goes to the
declaration that is in scope. -/
theorem target_found {tokens : List Token} {b : Block} {cur : Cursor}
    {shorter : cur.size < tokens.length + 1} {c : Compiler} {i : Nat} {label : Label}
    (parsed : Parse.program tokens = .ok b cur shorter)
    (compiled : Compiler.generate (.block b) .empty = .ok () c)
    (target : c.code[i]?.bind targetOf? = some label) :
    ∃ name : String, label = name ∧ (b.declared.count name ≤ 1 →
      (name ∈ b.declared → Unreserved name) →
        c.labelsSet.count name = 1 ∧
        (∃ a : Nat, c.code[a]? = some (.label name) ∧
          ∀ m, ∃ m', start c.code.toList m = .ok () m' ∧ m'.labels.lookup? name = some a) ∧
        (c.code[i]? = some (.enter name) →
          ∃ k, (b.calls [] 0)[callsBefore c.code i]? = some (name, some k) ∧
            ∀ j, b.declared[j]? = some name ↔ j = k)) := by
  obtain ⟨ts, _, derived⟩ := Parse.block_derives ⟨shorter, parsed⟩
  have nested : b.allExprs Expr.nested = true := derived.nested fun _ _ eq => congrArg _ eq
  obtain ⟨c, emits, rfl⟩ := Compiler.emits_of_generate nested compiled
  obtain ⟨name, rfl⟩ := target_textual emits target
  refine ⟨name, rfl, fun once free => ?_⟩
  rw [Block.declared_eq] at once free
  rw [Block.declared_eq, Block.calls_eq]
  have set := count_of_target emits target once free
  refine ⟨set, ?_, fun call => call_refers emits call once⟩
  obtain ⟨a, place⟩ := place_of_label set
  refine ⟨a, place, fun m => ⟨_, start_emits emits m, ?_⟩⟩
  rw [← Array.getElem?_toList] at place
  exact (lookup?_labelTable 0 [] place (not_mem_later place rfl (Nat.le_of_eq set))).trans
    (congrArg some (Nat.zero_add a))

/-- The tokens of two blocks that each declare a function, `f` and another, and call it. -/
def siblings (g : String) : List Token :=
  [⟨.kwIf, "if", 1⟩, ⟨.kwTrue, "true", 1⟩, ⟨.kwThen, "then", 1⟩, ⟨.kwFunc, "func", 2⟩,
    ⟨.identifier, "f", 2⟩, ⟨.lparen, "(", 2⟩, ⟨.rparen, ")", 2⟩, ⟨.kwRet, "ret", 2⟩,
    ⟨.kwTrue, "true", 2⟩, ⟨.kwEnd, "end", 2⟩, ⟨.kwPrintln, "println", 3⟩, ⟨.identifier, "f", 3⟩,
    ⟨.lparen, "(", 3⟩, ⟨.rparen, ")", 3⟩, ⟨.kwEnd, "end", 4⟩, ⟨.kwIf, "if", 5⟩,
    ⟨.kwTrue, "true", 5⟩, ⟨.kwThen, "then", 5⟩, ⟨.kwFunc, "func", 6⟩, ⟨.identifier, g, 6⟩,
    ⟨.lparen, "(", 6⟩, ⟨.rparen, ")", 6⟩, ⟨.kwRet, "ret", 6⟩, ⟨.kwFalse, "false", 6⟩,
    ⟨.kwEnd, "end", 6⟩, ⟨.kwPrintln, "println", 7⟩, ⟨.identifier, g, 7⟩, ⟨.lparen, "(", 7⟩,
    ⟨.rparen, ")", 7⟩, ⟨.kwEnd, "end", 8⟩]

/-- The program that the tokens write. -/
def siblingsTree (g : String) : Block :=
  .mk [.branch (.bool true 1)
      (.mk [.func "f" [] (.mk [.ret (.bool true 2) 2] 2) 2,
        .print (.call "f" [] 3) (.str "\n") 3] 3) none 4,
    .branch (.bool true 5)
      (.mk [.func g [] (.mk [.ret (.bool false 6) 6] 6) 6,
        .print (.call g [] 7) (.str "\n") 7] 7) none 8] 8

/-- The code of the program. -/
def siblingsCode (g : String) : Array Instr :=
  #[.label "START", .push (.value (.bool true)), .jumpIfZero "LBL2", .label "LBL1", .jump "LBL4",
    .label "f", .push (.value (.bool true)), .leave, .push (.value .nothing), .leave, .label "LBL4",
    .push (.value (.number (.int 0))), .enter "f", .println, .jump "LBL3", .label "LBL2",
    .label "LBL3", .push (.value (.bool true)), .jumpIfZero "LBL6", .label "LBL5", .jump "LBL8",
    .label g, .push (.value (.bool false)), .leave, .push (.value .nothing), .leave, .label "LBL8",
    .push (.value (.number (.int 0))), .enter g, .println, .jump "LBL7", .label "LBL6",
    .label "LBL7", .halt]

theorem siblings_found :
    (∃ cur shorter, Parse.program (siblings "g") = .ok (siblingsTree "g") cur shorter) ∧
      ∃ c, Compiler.generate (.block (siblingsTree "g")) .empty = .ok () c ∧
        c.code = siblingsCode "g" ∧ c.code[28]?.bind targetOf? = some "g" ∧
        (siblingsTree "g").declared.count "g" ≤ 1 ∧ Unreserved "g" ∧
        c.labelsSet.count "g" = 1 ∧
        (∃ a : Nat, c.code[a]? = some (.label "g") ∧
          ∀ m, ∃ m', start c.code.toList m = .ok () m' ∧ m'.labels.lookup? "g" = some a) ∧
        (c.code[28]? = some (.enter "g") →
          ∃ k, ((siblingsTree "g").calls [] 0)[callsBefore c.code 28]? = some ("g", some k) ∧
            ∀ j, (siblingsTree "g").declared[j]? = some "g" ↔ j = k) := by
  have parsed : Parse.program (siblings "g") =
      .ok (siblingsTree "g") ⟨(siblings "g").reverse, []⟩ (by decide) := by
    cbv
  have compiled : Compiler.generate (.block (siblingsTree "g")) .empty =
      .ok () ⟨siblingsCode "g", #[], #[], #[], 0, 8⟩ := by
    cbv
  have target : (siblingsCode "g")[28]?.bind targetOf? = some "g" := rfl
  have once : (siblingsTree "g").declared.count "g" ≤ 1 := by decide
  have free : Unreserved "g" := Compiler.unreserved_of_head (by decide) (by decide)
  obtain ⟨_, ⟨⟩, found⟩ := target_found parsed compiled target
  exact ⟨⟨_, _, parsed⟩, _, compiled, rfl, target, once, free, found once fun _ => free⟩

/-- Where both functions have one name, the call in the first block goes to the declaration in the
second one. -/
theorem siblings_mixed :
    (∃ cur shorter, Parse.program (siblings "f") = .ok (siblingsTree "f") cur shorter) ∧
      ∃ c m, Compiler.generate (.block (siblingsTree "f")) .empty = .ok () c ∧
        c.code = siblingsCode "f" ∧ c.code[5]? = some (.label "f") ∧
        c.code[12]? = some (.enter "f") ∧ c.code[21]? = some (.label "f") ∧
        (siblingsTree "f").calls [] 0 = [("f", some 0), ("f", some 1)] ∧
        c.labelsSet.count "f" = 2 ∧ start c.code.toList empty = .ok () m ∧
        m.labels.lookup? "f" = some 21 := by
  have parsed : Parse.program (siblings "f") =
      .ok (siblingsTree "f") ⟨(siblings "f").reverse, []⟩ (by decide) := by
    cbv
  have compiled : Compiler.generate (.block (siblingsTree "f")) .empty =
      .ok () ⟨siblingsCode "f", #[], #[], #[], 0, 8⟩ := by
    cbv
  exact ⟨⟨_, _, parsed⟩, _, _, compiled, rfl, rfl, rfl, rfl, by decide, by decide, rfl, by decide⟩

end ScriptLang.Machine
