import ScriptLang.Proofs.Sequence
import ScriptLang.Proofs.Tree.Shape
import ScriptLang.Code.Compiler

/-!
Which statements have code.

Every step of a compilation adds code at the end of what is there (`Appends`), and an expression
adds at least one instruction (`expr_adds`). So does every statement but a counted loop, which the
compiler passes over without a word (`stmt_adds`, `stmt_of_isCount`). A program compiles like the
program without its counted loops (`stmts_without`).
-/

namespace ScriptLang

namespace Compiler

variable {α β : Type} {x : Compile α} {f : α → Compile β}

/-- A step leaves the code from before it where it is. -/
def Appends (x : Compile α) : Prop :=
  ∀ ⦃c a c'⦄, x c = .ok a c' → c.code.toList <+: c'.code.toList

/-- A step adds at least one instruction at the end of the code. -/
def AddsCode (x : Compile α) : Prop :=
  ∀ ⦃c a c'⦄, x c = .ok a c' → ∃ i rest, c'.code.toList = c.code.toList ++ i :: rest

/-! ### Steps one after the other -/

theorem AddsCode.appends (h : AddsCode x) : Appends x := by
  intro c a c' given
  obtain ⟨i, rest, code⟩ := h given
  exact ⟨i :: rest, code.symm⟩

theorem Appends.bind (h : Appends x) (h' : ∀ a, Appends (f a)) : Appends (x >>= f) := by
  intro c b c' given
  obtain ⟨a, c₁, first, second⟩ := bind_eq_ok.mp given
  exact (h first).trans (h' a second)

/-- It is enough that the first step adds code. -/
theorem AddsCode.bind (h : AddsCode x) (h' : ∀ a, Appends (f a)) : AddsCode (x >>= f) := by
  intro c b c' given
  obtain ⟨a, c₁, first, second⟩ := bind_eq_ok.mp given
  obtain ⟨i, rest, code⟩ := h first
  obtain ⟨more, code'⟩ := h' a second
  exact ⟨i, rest ++ more, by rw [← code', code, List.append_assoc, List.cons_append]⟩

/-- It is enough that the second step adds code. -/
theorem Appends.bind_adds (h : Appends x) (h' : ∀ a, AddsCode (f a)) : AddsCode (x >>= f) := by
  intro c b c' given
  obtain ⟨a, c₁, first, second⟩ := bind_eq_ok.mp given
  obtain ⟨more, code⟩ := h first
  obtain ⟨i, rest, code'⟩ := h' a second
  cases more with
  | nil => exact ⟨i, rest, by rw [code', ← code, List.append_nil]⟩
  | cons j more => exact ⟨j, more ++ i :: rest, by rw [code', ← code, List.append_assoc]; rfl⟩

theorem pure_appends (a : α) : Appends (pure a : Compile α) := by
  intro c b c' given
  obtain ⟨-, rfl⟩ := pure_eq_ok.mp given
  exact List.prefix_refl _

theorem throw_adds (e : Failure) : AddsCode (throw e : Compile α) :=
  fun _ _ _ given => absurd given throw_ne_ok

/-- A step that reads the state goes on from the same code. -/
theorem get_adds {g : Compiler → Compile β} (h : ∀ c, AddsCode (g c)) : AddsCode (get >>= g) :=
  fun c _ _ given => h c (get_bind.symm.trans given)

theorem modify_appends {g : Compiler → Compiler}
    (h : ∀ c, c.code.toList <+: (g c).code.toList) : Appends (modify g : Compile PUnit) := by
  intro c a c' given
  cases given
  exact h c

/-! ### The steps of the compiler -/

theorem emit_adds (i : Instr) : AddsCode (emit i) := by
  intro c a c' given
  cases given
  exact ⟨i, [], by simp⟩

theorem emit_appends (i : Instr) : Appends (emit i) := (emit_adds i).appends

theorem freshLabel_appends : Appends freshLabel := by
  intro c a c' given
  cases given
  exact List.prefix_refl _

theorem openBlock_appends : Appends openBlock :=
  modify_appends fun _ => List.prefix_refl _

theorem closeBlock_appends : Appends closeBlock :=
  modify_appends fun _ => by simp

theorem addLocal_adds (name : String) : AddsCode (addLocal name) := by
  intro c a c' given
  cases given
  exact ⟨.setSlot (slotNote c.locals.size name), [], by simp⟩

theorem addGlobal_adds (name : String) : AddsCode (addGlobal name) := by
  intro c a c' given
  cases given
  exact ⟨.storeGlobal (.index c.globals.size), [], by simp⟩

theorem addParams_appends (ps : List Param) : Appends (addParams ps) := by
  induction ps with
  | nil => exact pure_appends _
  | cons p ps ih => exact (addLocal_adds p.name).appends.bind fun _ => ih

theorem pushInt_adds (i : Int) : AddsCode (pushInt i) := by
  rw [pushInt]
  split
  · exact emit_adds _
  · exact throw_adds _

theorem targetName_appends (target : Expr) : Appends (targetName target) := by
  rw [targetName]
  split
  · exact pure_appends _
  · exact (throw_adds _).appends

theorem load_adds (name : String) (line : Line) : AddsCode (load name line) := by
  refine get_adds fun c => ?_
  split
  · exact throw_adds _
  · split <;> exact emit_adds _

theorem store_adds (name : String) : AddsCode (store name) := by
  refine get_adds fun c => ?_
  split
  · split
    · exact addGlobal_adds name
    · exact addLocal_adds name
  · split <;> exact emit_adds _

theorem declare_appends (name : String) (arity : Nat) (line : Line) :
    Appends (declare name arity line) := by
  intro c a c' given
  rw [declare, get_bind] at given
  split at given
  · exact absurd given throw_ne_ok
  · split at given
    · exact absurd given throw_ne_ok
    · cases given
      exact List.prefix_refl _

theorem emitBinary_appends (op : Token) : Appends (emitBinary op) := by
  rw [emitBinary]
  split
  · exact emit_appends _
  · exact pure_appends _

mutual
theorem expr_adds (e : Expr) : AddsCode (expr e) := by
  match e with
  | .integer value _ => exact pushInt_adds value
  | .real _ _ | .bool _ _ | .text _ _ => exact emit_adds _
  | .binary op left right _ =>
    exact (expr_adds left).bind fun _ => (expr_adds right).appends.bind fun _ =>
      emitBinary_appends op
  | .unary op operand _ =>
    refine (expr_adds operand).bind fun _ => ?_
    split
    · exact emit_appends _
    · exact (emit_appends _).bind fun _ => emit_appends _
    · exact pure_appends _
  | .logical op left right _ =>
    refine (expr_adds left).bind fun _ => (expr_adds right).appends.bind fun _ => ?_
    split
    · exact emit_appends _
    · exact emit_appends _
    · exact pure_appends _
  | .group inner _ => exact expr_adds inner
  | .name n line => exact load_adds n line
  | .call n args line =>
    refine get_adds fun c => ?_
    split
    · exact throw_adds _
    · split
      · exact throw_adds _
      · exact (exprs_appends args).bind_adds fun _ => (emit_adds _).bind fun _ => emit_appends _

theorem exprs_appends (es : List Expr) : Appends (exprs es) := by
  match es with
  | [] => exact pure_appends _
  | e :: es => exact (expr_adds e).appends.bind fun _ => exprs_appends es
end

/-! ### Statements -/

mutual
/-- Every statement but a counted loop has code. -/
theorem stmt_adds (s : Stmt) (kept : s.isCount = false) : AddsCode (stmt s) := by
  match s with
  | .print value ending _ =>
    refine (expr_adds value).bind fun _ => ?_
    split <;> exact emit_appends _
  | .branch test thenBlock elseBlock _ =>
    exact (expr_adds test).bind fun _ => freshLabel_appends.bind fun _ =>
      freshLabel_appends.bind fun _ => freshLabel_appends.bind fun _ =>
      (emit_appends _).bind fun _ => (emit_appends _).bind fun _ =>
      openBlock_appends.bind fun _ => (block_appends thenBlock).bind fun _ =>
      closeBlock_appends.bind fun _ => (emit_appends _).bind fun _ => (emit_appends _).bind fun _ =>
      (elsePart_appends elseBlock).bind fun _ => emit_appends _
  | .loop test body _ =>
    exact freshLabel_appends.bind_adds fun _ => freshLabel_appends.bind_adds fun _ =>
      freshLabel_appends.bind_adds fun _ => (emit_adds _).bind fun _ =>
      (expr_adds test).appends.bind fun _ => (emit_appends _).bind fun _ =>
      (emit_appends _).bind fun _ => openBlock_appends.bind fun _ =>
      (block_appends body).bind fun _ => closeBlock_appends.bind fun _ =>
      (emit_appends _).bind fun _ => emit_appends _
  | .assign target value _ =>
    exact (expr_adds value).bind fun _ => (targetName_appends target).bind fun _ =>
      (store_adds _).appends
  | .assignLocal target value _ =>
    exact (expr_adds value).bind fun _ => (targetName_appends target).bind fun _ =>
      (addLocal_adds _).appends
  | .count .. => exact Bool.noConfusion kept
  | .func name params body line =>
    exact (declare_appends name params.length line).bind_adds fun _ =>
      freshLabel_appends.bind_adds fun _ => (emit_adds _).bind fun _ =>
      (emit_appends _).bind fun _ => openBlock_appends.bind fun _ =>
      (addParams_appends params).bind fun _ => (block_appends body).bind fun _ =>
      closeBlock_appends.bind fun _ => (emit_appends _).bind fun _ =>
      (emit_appends _).bind fun _ => emit_appends _
  | .call n args line =>
    exact (expr_adds (.call n args line)).bind fun _ => emit_appends _
  | .ret value _ => exact (expr_adds value).bind fun _ => emit_appends _

theorem block_appends (b : Block) : Appends (block b) := by
  match b with
  | .mk ss _ => exact stmts_appends ss

theorem elsePart_appends (o : Option Block) : Appends (elsePart o) := by
  match o with
  | none => exact pure_appends _
  | some b =>
    exact openBlock_appends.bind fun _ => (block_appends b).bind fun _ => closeBlock_appends

theorem stmts_appends (ss : List Stmt) : Appends (stmts ss) := by
  match ss with
  | [] => exact pure_appends _
  | s :: ss =>
    refine Appends.bind ?_ fun _ => stmts_appends ss
    cases kept : s.isCount with
    | false => exact (stmt_adds s kept).appends
    | true =>
      cases s with
      | count => exact pure_appends _
      | _ => exact Bool.noConfusion kept
end

/-- A counted loop is passed over. -/
theorem stmt_of_isCount {s : Stmt} (h : s.isCount = true) : stmt s = pure () := by
  cases s with
  | count => rfl
  | _ => exact Bool.noConfusion h

mutual
theorem stmt_without (s : Stmt) : stmt (s.without Stmt.isCount) = stmt s := by
  match s with
  | .branch test thenBlock elseBlock _ =>
    simp only [Stmt.without, stmt, block_without thenBlock, elsePart_without elseBlock]
  | .loop _ body _ | .func _ _ body _ => simp only [Stmt.without, stmt, block_without body]
  | .count .. => rfl
  | .print .. | .assign .. | .assignLocal .. | .call .. | .ret .. => rfl

theorem block_without (b : Block) : block (b.without Stmt.isCount) = block b := by
  match b with
  | .mk ss _ => exact stmts_without ss

theorem elsePart_without (o : Option Block) :
    elsePart (Block.withoutElse Stmt.isCount o) = elsePart o := by
  match o with
  | none => rfl
  | some b => simp only [Block.withoutElse, elsePart, block_without b]

/-- Statements have the same code without their counted loops. -/
theorem stmts_without (ss : List Stmt) : stmts (Stmt.withoutAll Stmt.isCount ss) = stmts ss := by
  match ss with
  | [] => rfl
  | s :: ss =>
    rw [Stmt.withoutAll, stmts]
    split
    · next passed => rw [stmt_of_isCount passed, pure_bind, stmts_without ss]
    · rw [stmts, stmt_without s, stmts_without ss]
end

end Compiler

end ScriptLang
