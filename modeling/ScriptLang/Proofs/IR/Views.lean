import ScriptLang.IR.Build
import ScriptLang.Proofs.Sequence

/-!
What is assumed of a library.

A view says what the modules of a library are made of: blocks and instructions with numbers, which
only tell them apart. `Appends` is all that is assumed of the library under a view. An instruction
that it does not refuse is added at the end of the current block, and the result is known by it; a
new block is empty; and a block is left exactly if it has not been left before. What a library
refuses, and how it tests values, is left open.
-/

namespace ScriptLang

namespace Table

variable {α β : Type}

/-- The table with other entries. -/
def onValues (f : α → β) (t : Table α) : Table β := List.map (fun e => (e.1, f e.2)) t

theorem lookup?_onValues (f : α → β) (t : Table α) (key : String) :
    (t.onValues f).lookup? key = (t.lookup? key).map f := by
  induction t with
  | nil => rfl
  | cons entry rest ih =>
    change (if entry.1 == key then _ else lookup? (onValues f rest) key) = Option.map f (ite _ _ _)
    split
    · rfl
    · exact ih

theorem onValues_put (f : α → β) (t : Table α) (key : String) (value : α) :
    (t.put key value).onValues f = (t.onValues f).put key (f value) := by
  induction t with
  | nil => rfl
  | cons entry rest ih =>
    change onValues f (ite _ _ _) = ite _ _ _
    split
    · rfl
    · exact congrArg (_ :: ·) ih

end Table

namespace IR

/-- The block with an instruction more. -/
def Block.grown (b : Block) (number : Nat) (i : Instr) : Block :=
  { b with code := b.code.push (number, i) }

/-- A module, and the variables with their addresses. -/
structure Builder extends Module where
  vars : Table (Option (Variable Pointer))

/-! ### Changes of a module -/

namespace Builder

/-- A module with an empty block and no variables. -/
def empty : Builder := ⟨.empty, []⟩

/-- The module with an instruction more where the builder stands. -/
def add (m : Builder) (i : Instr) : Builder := { m with toModule := m.toModule.add i }

/-- The module with a block more. -/
def withBlock (m : Builder) : Builder := { m with toModule := m.toModule.withBlock }

/-- The module with three blocks more. -/
def withBlocks (m : Builder) : Builder := m.withBlock.withBlock.withBlock

/-- The builder elsewhere. -/
def moved (m : Builder) (position : Nat) : Builder :=
  { m with toModule := m.toModule.moved position }

/-- The module with a variable more. -/
def declare (m : Builder) (name : String) (v : Variable Pointer) : Builder :=
  { m with vars := m.vars.put name (some v) }

/-- The builder stands at a block of the module. -/
def Placed (m : Builder) : Prop := m.current < m.blocks.size

variable {m : Builder} {j : Nat}

@[simp] theorem size_add (m : Builder) (x : Instr) : (m.add x).blocks.size = m.blocks.size :=
  Array.size_modify

@[simp] theorem size_withBlock (m : Builder) : m.withBlock.blocks.size = m.blocks.size + 1 :=
  Array.size_push _

@[simp] theorem size_withBlocks (m : Builder) : m.withBlocks.blocks.size = m.blocks.size + 3 := by
  simp [withBlocks]

theorem getElem?_add (m : Builder) (x : Instr) (j : Nat) :
    (m.add x).blocks[j]? =
      if m.current = j then m.blocks[j]?.map (Block.grown · (m.counter + 1) x)
      else m.blocks[j]? :=
  Array.getElem?_modify

theorem getElem?_add_ne (x : Instr) (other : j ≠ m.current) :
    (m.add x).blocks[j]? = m.blocks[j]? := by
  rw [getElem?_add, if_neg (Ne.symm other)]

theorem getElem?_withBlock (m : Builder) (j : Nat) :
    m.withBlock.blocks[j]? =
      if j = m.blocks.size then some ⟨m.counter + 1, #[]⟩ else m.blocks[j]? :=
  Array.getElem?_push

end Builder

/-! ### Views -/

/-- What the parts of a library stand for. -/
structure Library.View (L : Library) where
  shown : L.State → Module
  operand : L.Value → Operand
  pointer : L.Slot → Pointer
  place : L.Label → Place

namespace Library.View

variable {L : Library} (V : L.View)

def operation (o : Operation L.Value L.Slot) : Operation Operand Pointer :=
  o.map V.operand V.pointer

def exit (x : Exit L.Value L.Label) : Exit Operand Nat :=
  x.map V.operand fun label => (V.place label).number

def typed (a : Typed L.Value) : Typed Operand := ⟨a.declared, V.operand a.operand⟩

def entry (v : Variable L.Slot) : Variable Pointer := ⟨v.declared, V.pointer v.slot⟩

/-- The state of a building. -/
def building (g : Building L) : Builder :=
  ⟨V.shown g.state, g.vars.onValues (Option.map V.entry)⟩

/-- The library adds what it is asked for, and nothing else. -/
structure Appends : Prop where
  start : V.shown L.start = .empty
  real : ∀ x, V.operand (L.real x) = .real x
  bit : ∀ b, V.operand (L.bit b) = .bit b
  alloca : ∀ {ty s slot s'}, L.alloca ty s = .ok (slot, s') →
    V.shown s' = (V.shown s).add (.alloca ty) ∧ V.pointer slot = ⟨(V.shown s).counter + 1, ty⟩
  compute : ∀ {o s v s'}, L.compute o s = .ok (v, s') →
    V.shown s' = (V.shown s).add (V.operation o).instr ∧
      V.operand v = .register ((V.shown s).counter + 1) (V.operation o).ty
  effect : ∀ {e s s'}, L.effect e s = .ok s' →
    V.shown s' = (V.shown s).add (e.map V.operand V.pointer).instr
  newBlock : ∀ s, V.shown (L.newBlock s).2 = (V.shown s).withBlock ∧
    V.place (L.newBlock s).1 = ⟨(V.shown s).blocks.size, (V.shown s).counter + 1⟩
  moveTo : ∀ label s, V.shown (L.moveTo label s) = (V.shown s).moved (V.place label).position
  leave : ∀ x s, (L.leave x s).map V.shown =
    if (V.shown s).ended then none else some ((V.shown s).add (V.exit x).instr)

variable {V} {g g' : Building L}

theorem lookup?_vars (g : Building L) (x : String) :
    (V.building g).vars.lookup? x = (g.vars.lookup? x).map (Option.map V.entry) :=
  Table.lookup?_onValues _ _ _

namespace Appends

variable (appends : V.Appends)
include appends

theorem building_start : V.building (.start L) = .empty := by
  rw [building, Building.start, appends.start]
  rfl

theorem reserve_eq_ok {ty : Ty} {slot : L.Slot} (given : Building.reserve ty g = .ok slot g') :
    V.building g' = (V.building g).add (.alloca ty) ∧
      V.pointer slot = ⟨(V.building g).counter + 1, ty⟩ := by
  rw [Building.reserve] at given
  split at given
  · next found =>
      cases given
      obtain ⟨added, named⟩ := appends.alloca found
      refine ⟨?_, named⟩
      rw [building, added]
      rfl
  · cases given

theorem compute_eq_ok {o : Operation L.Value L.Slot} {v : L.Value}
    (given : Building.compute o g = .ok v g') :
    V.building g' = (V.building g).add (V.operation o).instr ∧
      V.operand v = .register ((V.building g).counter + 1) (V.operation o).ty := by
  rw [Building.compute] at given
  split at given
  · next found =>
      cases given
      obtain ⟨added, named⟩ := appends.compute found
      refine ⟨?_, named⟩
      rw [building, added]
      rfl
  · cases given

theorem effect_eq_ok {e : Effect L.Value L.Slot} (given : Building.effect e g = .ok () g') :
    V.building g' = (V.building g).add (e.map V.operand V.pointer).instr := by
  rw [Building.effect] at given
  split at given
  · next found =>
      cases given
      rw [building, appends.effect found]
      rfl
  · cases given

theorem result_eq_ok {declared : Declared} {o : Operation L.Value L.Slot}
    {v : Option (Typed L.Value)} (given : Building.result declared o g = .ok v g') :
    v.map V.typed =
        some ⟨declared, .register ((V.building g).counter + 1) (V.operation o).ty⟩ ∧
      V.building g' = (V.building g).add (V.operation o).instr := by
  obtain ⟨a, g₁, computed, given⟩ := bind_eq_ok.mp given
  obtain ⟨rfl, rfl⟩ := pure_eq_ok.mp given
  obtain ⟨added, named⟩ := appends.compute_eq_ok computed
  refine ⟨?_, added⟩
  rw [Option.map_some, typed, named]

theorem leave_eq_ok {x : Exit L.Value L.Label} (given : Building.leave x g = .ok () g') :
    V.building g' = (V.building g).add (V.exit x).instr := by
  have left := appends.leave x g.state
  rw [Building.leave] at given
  split at given
  · next found =>
      cases given
      rw [found, Option.map_some] at left
      split at left
      · cases left
      · rw [building, Option.some.inj left]
        rfl
  · cases given

/-- A block that has not been left before is left. -/
theorem leave_of_not_ended {x : Exit L.Value L.Label} (isOpen : (V.building g).ended = false) :
    ∃ g', Building.leave x g = .ok () g' := by
  have left := appends.leave x g.state
  rw [show (V.shown g.state).ended = false from isOpen] at left
  obtain ⟨s, found, -⟩ := Option.map_eq_some_iff.mp left
  rw [Building.leave, found]
  exact ⟨_, rfl⟩

theorem newBlock_eq_ok {label : L.Label} (given : Building.newBlock g = .ok label g') :
    V.building g' = (V.building g).withBlock ∧
      V.place label = ⟨(V.building g).blocks.size, (V.building g).counter + 1⟩ := by
  cases given
  obtain ⟨added, named⟩ := appends.newBlock g.state
  refine ⟨?_, named⟩
  rw [building, added]
  rfl

theorem moveTo_eq_ok {label : L.Label} (given : Building.moveTo label g = .ok () g') :
    V.building g' = (V.building g).moved (V.place label).position := by
  cases given
  rw [building, appends.moveTo]
  rfl

end Appends

end Library.View

/-! ### Modules as a library -/

/-- Modules as they are. -/
def Module.view : Module.library.View := ⟨id, id, id, id⟩

theorem Module.appends : Module.view.Appends where
  start := rfl
  real _ := rfl
  bit _ := rfl
  alloca given := by
    cases given
    exact ⟨rfl, rfl⟩
  compute {o _ _ _} given := by
    have same : Module.view.operation o = o := by cases o <;> rfl
    rw [same]
    dsimp only [Module.library] at given
    split at given
    · cases given
    · cases given
      exact ⟨rfl, rfl⟩
  effect {e _ _} given := by
    have same : e.map Module.view.operand Module.view.pointer = e := by cases e <;> rfl
    rw [same]
    dsimp only [Module.library] at given
    split at given
    · cases given
    · cases given
      rfl
  newBlock _ := ⟨rfl, rfl⟩
  moveTo _ _ := rfl
  leave x s := by
    change Option.map id (ite _ _ _) = _
    rw [Option.map_id]
    rfl

end IR

end ScriptLang
