import ScriptLang.Code.Basic
import ScriptLang.Machine.Basic

/-!
Points of a program, and when it is safe to go on from one.

A point says where the machine is and what is known there: how many cells the running call has, how
many globals are stored, whether there is a call at all. `Follows P p` says that the instruction at
`p` finds what it needs and leads into `P` only. From a point of `Safe Q` the machine is safe until
it comes to `Q`; loops and recursive functions are dealt with once and for all in `Until.fix`.
-/

namespace ScriptLang.Machine

/-! ### Going on -/

section
variable {α : Type} {F : (α → Prop) → α → Prop} {Q Q' : α → Prop} {p : α}

/-- What `F` asks of the places that follow may be replaced by less. -/
def Lenient (F : (α → Prop) → α → Prop) : Prop :=
  ∀ ⦃P P' : α → Prop⦄ ⦃p : α⦄, F P p → (∀ q, P q → P' q) → F P' p

/-- A place of `Q`, or one from which `F` holds until a place of `Q` is reached, if ever. -/
def Until (F : (α → Prop) → α → Prop) (Q : α → Prop) (p : α) : Prop :=
  Q p ∨ ∃ A : α → Prop, A p ∧ ∀ q, A q → F (fun r => Q r ∨ A r) q

theorem Until.unfold (lenient : Lenient F) (h : Until F Q p) : Q p ∨ F (Until F Q) p := by
  rcases h with here | ⟨A, here, closed⟩
  · exact .inl here
  · exact .inr (lenient (closed p here) fun q next => next.imp id fun mem => ⟨A, mem, closed⟩)

theorem Until.step (lenient : Lenient F) (h : F (Until F Q) p) : Until F Q p := by
  refine .inr ⟨fun r => F (Until F Q) r, h, ?_⟩
  intro q holds
  exact lenient holds fun r next => next.unfold lenient

theorem Until.mono (lenient : Lenient F) (h : Until F Q p) (sub : ∀ q, Q q → Q' q) :
    Until F Q' p := by
  rcases h with here | ⟨A, here, closed⟩
  · exact .inl (sub p here)
  · exact .inr ⟨A, here, fun q mem => lenient (closed q mem) fun r next => next.imp (sub r) id⟩

/-- Places from which `F` holds until one of them is reached again need not be reached. -/
theorem Until.fix {E : α → Prop} (lenient : Lenient F)
    (entries : ∀ e, E e → F (Until F fun q => Q q ∨ E q) e)
    (h : Until F (fun q => Q q ∨ E q) p) : Until F Q p := by
  have sort : ∀ r, Until F (fun q => Q q ∨ E q) r →
      Q r ∨ F (Until F fun q => Q q ∨ E q) r := by
    intro r going
    rcases going.unfold lenient with (mem | mem) | next
    · exact .inl mem
    · exact .inr (entries r mem)
    · exact .inr next
  rcases sort p h with mem | next
  · exact .inl mem
  · exact .inr ⟨_, next, fun q holds => lenient holds sort⟩

end

/-! ### Points -/

/-- A place in a program and what is known of the machine there. -/
structure Point where
  pc : Nat
  /-- The number of cells above the base of the running call. -/
  height : Nat
  /-- All global slots below this one are stored. -/
  globals : Nat
  inCall : Bool
  /-- The number on top of the stack, if it counts arguments. -/
  count : Option Nat

variable {code : Array Instr} {labels : Labels} {P P' Q Q' : Point → Prop} {p : Point}

/-- The instruction at a point finds what it needs, and all points it leads to are in `P`. -/
inductive Follows (code : Array Instr) (labels : Labels) (P : Point → Prop) : Point → Prop where
  | push {pc h g k n v} : code[pc]? = some (.push (.value v)) → P ⟨pc + 1, h + 1, g, k, none⟩ →
      Follows code labels P ⟨pc, h, g, k, n⟩
  | pushCount {pc h g k n} {j : Nat} : code[pc]? = some (.push (.value (.number (.int j)))) →
      P ⟨pc + 1, h + 1, g, k, some j⟩ → Follows code labels P ⟨pc, h, g, k, n⟩
  | pop {pc h g k n} : code[pc]? = some .pop → P ⟨pc + 1, h, g, k, none⟩ →
      Follows code labels P ⟨pc, h + 1, g, k, n⟩
  | binary {pc h g k n op} : code[pc]? = some (.binary op) → P ⟨pc + 1, h + 1, g, k, none⟩ →
      Follows code labels P ⟨pc, h + 2, g, k, n⟩
  | bitwise {pc h g k n op} : code[pc]? = some (.bitwise op) → P ⟨pc + 1, h + 1, g, k, none⟩ →
      Follows code labels P ⟨pc, h + 2, g, k, n⟩
  | neg {pc h g k n} : code[pc]? = some .neg → P ⟨pc + 1, h + 1, g, k, none⟩ →
      Follows code labels P ⟨pc, h + 1, g, k, n⟩
  | print {pc h g k n} : code[pc]? = some .print → P ⟨pc + 1, h, g, k, none⟩ →
      Follows code labels P ⟨pc, h + 1, g, k, n⟩
  | println {pc h g k n} : code[pc]? = some .println → P ⟨pc + 1, h, g, k, none⟩ →
      Follows code labels P ⟨pc, h + 1, g, k, n⟩
  | label {pc h g k n l} : code[pc]? = some (.label l) → P ⟨pc + 1, h, g, k, none⟩ →
      Follows code labels P ⟨pc, h, g, k, n⟩
  | setSlot {pc h g k n d} : code[pc]? = some (.setSlot d) → P ⟨pc + 1, h, g, k, none⟩ →
      Follows code labels P ⟨pc, h, g, k, n⟩
  | jump {pc h g k n l a} : code[pc]? = some (.jump l) → labels.lookup? l = some a →
      P ⟨a, h, g, k, none⟩ → Follows code labels P ⟨pc, h, g, k, n⟩
  | jumpIfZero {pc h g k n l a} : code[pc]? = some (.jumpIfZero l) → labels.lookup? l = some a →
      P ⟨pc + 1, h, g, k, none⟩ → P ⟨a, h, g, k, none⟩ →
      Follows code labels P ⟨pc, h + 1, g, k, n⟩
  | enter {pc h g k f a j g'} : code[pc]? = some (.enter f) → labels.lookup? f = some a →
      g' ≤ g → P ⟨a, j, g', true, none⟩ → P ⟨pc + 1, h + 1, g, k, none⟩ →
      Follows code labels P ⟨pc, h + j + 1, g, k, some j⟩
  | leave {pc h g n} : code[pc]? = some .leave → Follows code labels P ⟨pc, h + 1, g, true, n⟩
  | loadGlobal {pc h g k n} {i : Nat} : code[pc]? = some (.loadGlobal (.index i)) → i < g →
      P ⟨pc + 1, h + 1, g, k, none⟩ → Follows code labels P ⟨pc, h, g, k, n⟩
  | storeGlobal {pc h g k n} {i : Nat} : code[pc]? = some (.storeGlobal (.index i)) → i < g →
      P ⟨pc + 1, h, g, k, none⟩ → Follows code labels P ⟨pc, h + 1, g, k, n⟩
  | newGlobal {pc h k n} {g : Nat} : code[pc]? = some (.storeGlobal (.index g)) →
      P ⟨pc + 1, h, g + 1, k, none⟩ → Follows code labels P ⟨pc, h + 1, g, k, n⟩
  | loadLocal {pc h g k n} {i : Nat} : code[pc]? = some (.loadLocal (.index i)) → i < h →
      P ⟨pc + 1, h + 1, g, k, none⟩ → Follows code labels P ⟨pc, h, g, k, n⟩
  | storeLocal {pc h g k n} {i : Nat} : code[pc]? = some (.storeLocal (.index i)) → i < h →
      P ⟨pc + 1, h, g, k, none⟩ → Follows code labels P ⟨pc, h + 1, g, k, n⟩
  | halt {pc g n} : code[pc]? = some .halt → Follows code labels P ⟨pc, 0, g, false, n⟩

theorem Follows.mono (h : Follows code labels P p) (sub : ∀ q, P q → P' q) :
    Follows code labels P' p := by
  cases h with
  | push fetch next => exact .push fetch (sub _ next)
  | pushCount fetch next => exact .pushCount fetch (sub _ next)
  | pop fetch next => exact .pop fetch (sub _ next)
  | binary fetch next => exact .binary fetch (sub _ next)
  | bitwise fetch next => exact .bitwise fetch (sub _ next)
  | neg fetch next => exact .neg fetch (sub _ next)
  | print fetch next => exact .print fetch (sub _ next)
  | println fetch next => exact .println fetch (sub _ next)
  | label fetch next => exact .label fetch (sub _ next)
  | setSlot fetch next => exact .setSlot fetch (sub _ next)
  | jump fetch found next => exact .jump fetch found (sub _ next)
  | jumpIfZero fetch found next other => exact .jumpIfZero fetch found (sub _ next) (sub _ other)
  | enter fetch found le entry next => exact .enter fetch found le (sub _ entry) (sub _ next)
  | leave fetch => exact .leave fetch
  | loadGlobal fetch lt next => exact .loadGlobal fetch lt (sub _ next)
  | storeGlobal fetch lt next => exact .storeGlobal fetch lt (sub _ next)
  | newGlobal fetch next => exact .newGlobal fetch (sub _ next)
  | loadLocal fetch lt next => exact .loadLocal fetch lt (sub _ next)
  | storeLocal fetch lt next => exact .storeLocal fetch lt (sub _ next)
  | halt fetch => exact .halt fetch

/-- From a point the machine is safe until it comes to `Q`. -/
def Safe (code : Array Instr) (labels : Labels) (Q : Point → Prop) (p : Point) : Prop :=
  ∃ A : Point → Prop, A p ∧ ∀ q, A q → Follows code labels (fun r => Q r ∨ A r) q

/-- A point of `Q`, or one from which the machine is safe until it comes to `Q`. -/
def Onward (code : Array Instr) (labels : Labels) (Q : Point → Prop) (p : Point) : Prop :=
  Q p ∨ Safe code labels Q p

theorem lenient_follows : Lenient (Follows code labels) := fun _ _ _ h sub => h.mono sub

theorem Safe.follows (h : Safe code labels Q p) : Follows code labels (Onward code labels Q) p := by
  obtain ⟨A, here, closed⟩ := h
  exact (closed p here).mono fun q next => next.imp id fun mem => ⟨A, mem, closed⟩

/-- One instruction more. -/
theorem Onward.step (h : Follows code labels (Onward code labels Q) p) :
    Onward code labels Q p :=
  Until.step lenient_follows h

theorem Onward.mono (h : Onward code labels Q p) (sub : ∀ q, Q q → Q' q) :
    Onward code labels Q' p :=
  Until.mono lenient_follows h sub

/-- Points that are safe until one of them is reached again are safe. -/
theorem Onward.fix {E : Point → Prop}
    (entries : ∀ e, E e → Follows code labels (Onward code labels fun q => Q q ∨ E q) e)
    (h : Onward code labels (fun q => Q q ∨ E q) p) : Onward code labels Q p :=
  Until.fix lenient_follows entries h

end ScriptLang.Machine
