import ScriptLang.Proofs.Code.Growth

/-!
Looking up symbols.

The last symbol of a name is found, with its index. A variable is looked for among the locals first.
-/

namespace ScriptLang.Compiler

variable {c : Compiler} {symbols : Array Symbol} {x : String} {s : Symbol} {i : Nat}

theorem lastIndexed?_push (symbols : Array Symbol) (s : Symbol) (x : String) :
    lastIndexed? (symbols.push s) x =
      if s.name = x then some (s, symbols.size) else lastIndexed? symbols x := by
  by_cases same : s.name = x <;>
    simp [lastIndexed?, List.zipIdx_append, same]

theorem lastIndexed?_eq_none :
    lastIndexed? symbols x = none ↔ ∀ s ∈ symbols, s.name ≠ x := by
  rw [lastIndexed?, List.find?_eq_none]
  constructor
  · intro none s mem same
    obtain ⟨i, lt, eq⟩ := List.mem_iff_getElem.mp (Array.mem_toList_iff.mpr mem)
    have mem' : (s, i) ∈ symbols.toList.zipIdx := by
      rw [List.mk_mem_zipIdx_iff_getElem?, List.getElem?_eq_getElem lt, eq]
    exact none (s, i) (List.mem_reverse.mpr mem') (by simpa using same)
  · rintro none ⟨s, i⟩ mem
    rw [List.mem_reverse, List.mk_mem_zipIdx_iff_getElem?] at mem
    simpa using none s (Array.mem_toList_iff.mp (List.mem_of_getElem? mem))

theorem lastIndexed?_some (h : lastIndexed? symbols x = some (s, i)) :
    symbols[i]? = some s ∧ s.name = x := by
  have mem := List.mem_of_find?_eq_some h
  rw [List.mem_reverse, List.mk_mem_zipIdx_iff_getElem?, Array.getElem?_toList] at mem
  exact ⟨mem, by simpa using List.find?_some h⟩

theorem varSymbol?_eq_none :
    c.varSymbol? x = none ↔ lastIndexed? c.locals x = none ∧ lastIndexed? c.globals x = none := by
  unfold varSymbol?
  cases lastIndexed? c.locals x <;> simp

theorem Added.lastIndexed?_eq_none {depth : Int} {a b : Array Symbol} (added : Added depth a b)
    (absent : lastIndexed? b x = none) : lastIndexed? a x = none := by
  obtain ⟨news, rfl, -⟩ := added
  rw [Compiler.lastIndexed?_eq_none] at absent ⊢
  exact fun s mem => absent s (Array.mem_append_left _ mem)

/-- A name that is not known later is not known now. -/
theorem Grows.varSymbol?_eq_none {c' : Compiler} (grown : Grows c c')
    (absent : c'.varSymbol? x = none) : c.varSymbol? x = none := by
  rw [Compiler.varSymbol?_eq_none] at absent ⊢
  exact ⟨grown.locals.lastIndexed?_eq_none absent.1, grown.globals.lastIndexed?_eq_none absent.2⟩

theorem funcSymbol?_eq_none : c.funcSymbol? x = none ↔ ∀ f ∈ c.functions, f.name ≠ x := by
  rw [funcSymbol?, Option.map_eq_none_iff, lastIndexed?_eq_none]

theorem funcSymbol?_some (h : c.funcSymbol? x = some s) : s ∈ c.functions ∧ s.name = x := by
  obtain ⟨⟨s', i⟩, found, rfl⟩ := Option.map_eq_some_iff.mp h
  obtain ⟨at', name⟩ := lastIndexed?_some found
  exact ⟨Array.mem_of_getElem? at', name⟩

end ScriptLang.Compiler
