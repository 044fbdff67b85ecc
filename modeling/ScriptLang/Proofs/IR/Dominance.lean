import ScriptLang.Proofs.IR.Flow

/-!
Which blocks every way to a block goes through.

A region is entered from one block only (`Entered`), and so are the regions it is made of. Hence
that block dominates the whole region, and an older block dominates a block of the region if it
dominates the one that the region is entered from.
-/

namespace ScriptLang.IR.Builder

variable {f : Builder} {a b i j k n u y z lo mid hi : Nat} {S : Nat → Prop}

/-- Every way from the first block to a block goes through another. -/
def Dominates (f : Builder) (a u : Nat) : Prop := ¬ Within f (· ≠ a) 0 u

theorem dominates_self (f : Builder) (a : Nat) : Dominates f a a :=
  fun way => way.target rfl

theorem Within.not_dominates (way : Within f S 0 u) (out : ¬ S a) : ¬ Dominates f a u :=
  fun dominates => dominates (way.mono fun _ inside same => out (same ▸ inside))

/-- A way goes on through a region to the block after it. -/
theorem Within.across (way : Within f S 0 i) (into : Edge f i a) (region : Region f a z lo hi)
    (out : Edge f z u) : Within f (fun j => S j ∨ Inside a lo hi j ∨ j = u) 0 u := by
  refine Within.step (.trans (.step (way.mono fun _ => .inl) into ?_) ?_) out (.inr (.inr rfl))
  · exact .inr (.inl (.inl rfl))
  · exact (region.within region.last).mono fun _ inside => .inr (.inl inside)

/-! ### Where control goes from a block -/

theorem Jumps.edge_eq (numbered : Numbered f) (h : Jumps f i j) (edge : Edge f i k) : k = j := by
  obtain ⟨b, t, found, ends, label⟩ := h
  obtain ⟨b', x, t', found', ends', mem, label'⟩ := edge
  cases found.symm.trans found'
  cases ends.unique ends'
  obtain rfl := List.mem_singleton.mp mem
  exact numbered.labelled_inj label' label

theorem Branches.edge_eq (numbered : Numbered f) (h : Branches f i j k) (edge : Edge f i n) :
    n = j ∨ n = k := by
  obtain ⟨b, v, s, t, found, ends, yes, no⟩ := h
  obtain ⟨b', x, t', found', ends', mem, label⟩ := edge
  cases found.symm.trans found'
  cases ends.unique ends'
  rcases List.mem_cons.mp mem with rfl | mem
  · exact .inl (numbered.labelled_inj label yes)
  · obtain rfl := List.mem_singleton.mp mem
    exact .inr (numbered.labelled_inj label no)

theorem Region.edge (numbered : Numbered f) (h : Region f a z lo hi) (inside : Inside a lo hi i)
    (other : i ≠ z) (edge : Edge f i j) : lo ≤ j ∧ j < hi := by
  obtain ⟨b, x, found, ends, -, targets⟩ := h.leads inside other
  obtain ⟨b', x', t, found', ends', mem, label⟩ := edge
  cases found.symm.trans found'
  cases ends.unique ends'
  obtain ⟨k, le, lt, label'⟩ := targets t mem
  rw [numbered.labelled_inj label label']
  exact ⟨le, lt⟩

/-! ### Where control comes from -/

/-- Control comes to a range of blocks only from there and from one block more, and not from the
block `z`. -/
def Entered (f : Builder) (a z lo hi : Nat) : Prop :=
  ∀ i j, Edge f i j → lo ≤ j → j < hi → Inside a lo hi i ∧ i ≠ z

/-- A way to a block of a region goes through the block that the region is entered from. -/
theorem Entered.through (h : Entered f a z lo hi) (pos : 0 < lo) (way : Within f S 0 u)
    (le : lo ≤ u) (lt : u < hi) : Within f S 0 a := by
  induction way with
  | refl => omega
  | step before edge _ ih =>
    obtain ⟨rfl | inside, -⟩ := h _ _ edge le lt
    · exact before
    · exact ih inside.1 inside.2

/-- An older block dominates a block of a region if it dominates the one that the region is entered
from. -/
theorem Entered.dominates_iff (h : Entered f a z lo hi) (pos : 0 < lo)
    (way : Within f (Inside a lo hi) a u) (le : lo ≤ u) (lt : u < hi) (old : j < lo) :
    Dominates f j u ↔ Dominates f j a := by
  refine not_congr ⟨fun there => h.through pos there le lt, fun there => ?_⟩
  refine there.trans (way.mono fun k inside => ?_)
  rcases inside with rfl | inside
  · exact there.target
  · omega

section Parts

variable (numbered : Numbered f)
include numbered

theorem Entered.first (h : Entered f a z lo hi) (two : Region f b z mid hi) :
    Entered f a b lo mid := by
  intro i j edge le lt
  have le' := two.le
  obtain ⟨inside, other⟩ := h i j edge le (by omega)
  by_cases late : Inside b mid hi i
  · have beyond := two.edge numbered late other edge
    omega
  · simp only [Inside] at inside late ⊢
    omega

theorem Entered.second (h : Entered f a z lo hi) (one : Region f a b lo mid) :
    Entered f b z mid hi := by
  intro i j edge le lt
  have le' := one.le
  obtain ⟨inside, other⟩ := h i j edge (by omega) lt
  refine ⟨?_, other⟩
  by_cases early : Inside a lo mid i ∧ i ≠ b
  · have before := one.edge numbered early.1 early.2 edge
    omega
  · simp only [Inside] at inside early ⊢
    omega

section Branch

variable (h : Entered f a (n + 2) n hi) (branches : Branches f a n (n + 1))
  (one : Region f n y (n + 3) mid) (jumps : Jumps f y (n + 2)) (two : Region f (n + 1) z mid hi)
  (jumps' : Jumps f z (n + 2))
include h branches one jumps two jumps'

/-- A way into a branch comes from the block before it, from its first block or from its second. -/
theorem Entered.branch_cases (edge : Edge f i j) (le : n ≤ j) (lt : j < hi) :
    i = a ∧ (j = n ∨ j = n + 1) ∨
      Inside n (n + 3) mid i ∧ (i = y ∧ j = n + 2 ∨ i ≠ y ∧ n + 3 ≤ j ∧ j < mid) ∨
      Inside (n + 1) mid hi i ∧ (i = z ∧ j = n + 2 ∨ i ≠ z ∧ mid ≤ j ∧ j < hi) := by
  obtain ⟨inside, other⟩ := h i j edge le lt
  have split : i = a ∨ Inside n (n + 3) mid i ∨ Inside (n + 1) mid hi i := by
    simp only [Inside] at inside ⊢
    omega
  rcases split with rfl | here | here
  · exact .inl ⟨rfl, branches.edge_eq numbered edge⟩
  · refine .inr (.inl ⟨here, ?_⟩)
    by_cases last : i = y
    · exact .inl ⟨last, jumps.edge_eq numbered (last ▸ edge)⟩
    · exact .inr ⟨last, one.edge numbered here last edge⟩
  · refine .inr (.inr ⟨here, ?_⟩)
    by_cases last : i = z
    · exact .inl ⟨last, jumps'.edge_eq numbered (last ▸ edge)⟩
    · exact .inr ⟨last, two.edge numbered here last edge⟩

theorem Entered.thenPart : Entered f n y (n + 3) mid := by
  intro i j edge le lt
  have le₁ := two.le
  rcases h.branch_cases numbered branches one jumps two jumps' edge (by omega) (by omega) with
    away | ⟨here, away | ⟨other, -⟩⟩ | ⟨-, away⟩
  · omega
  · omega
  · exact ⟨here, other⟩
  · omega

theorem Entered.elsePart : Entered f (n + 1) z mid hi := by
  intro i j edge le lt
  have le₁ := one.le
  rcases h.branch_cases numbered branches one jumps two jumps' edge (by omega) (by omega) with
    away | ⟨-, away⟩ | ⟨here, away | ⟨other, -⟩⟩
  · omega
  · omega
  · omega
  · exact ⟨here, other⟩

end Branch

theorem Entered.bodyPart (h : Entered f a (n + 2) n hi) (jumps : Jumps f a n)
    (branches : Branches f n (n + 1) (n + 2)) (body : Region f (n + 1) z (n + 3) hi)
    (jumps' : Jumps f z n) : Entered f (n + 1) z (n + 3) hi := by
  intro i j edge le lt
  obtain ⟨inside, other⟩ := h i j edge (by omega) lt
  have split : i = a ∨ i = n ∨ Inside (n + 1) (n + 3) hi i := by
    simp only [Inside] at inside ⊢
    omega
  rcases split with rfl | rfl | here
  · have away := jumps.edge_eq numbered edge
    omega
  · have away := branches.edge_eq numbered edge
    omega
  · refine ⟨here, ?_⟩
    rintro rfl
    have away := jumps'.edge_eq numbered edge
    omega

end Parts

end ScriptLang.IR.Builder
