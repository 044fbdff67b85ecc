import ScriptLang.Proofs.Parse.Local

/-!
How far a program is read.

A block ends before `else` or `end`, also the outermost one, where nothing is open that these words
could belong to. `openBlocks?` follows the words that open, split and close blocks. The tokens of a
tree leave it where it was (`Derives.openBlocks`), so a program that is read is read to its end
exactly if no word of the text closes or splits a block that is not open; otherwise reading stops
before the first such word, and what comes after that word has no effect on the tree.
-/

namespace ScriptLang.Parse

/-- The number of blocks open after a word, if `depth` are open before it. -/
def openAfter? (depth : Nat) (k : Kind) : Option Nat :=
  match k with
  | .kwIf | .kwWhile | .kwFor | .kwFunc => some (depth + 1)
  | .kwElse => if depth = 0 then none else some depth
  | .kwEnd => if depth = 0 then none else some (depth - 1)
  | _ => some depth

/-- The number of blocks open after the tokens, if `depth` are open before them; none if one of them
belongs to a block that is not open. -/
def openBlocks? (depth : Nat) : List Token → Option Nat
  | [] => some depth
  | t :: ts => (openAfter? depth t.kind).bind (openBlocks? · ts)

theorem openBlocks?_append (depth : Nat) (ts us : List Token) :
    openBlocks? depth (ts ++ us) = (openBlocks? depth ts).bind (openBlocks? · us) := by
  induction ts generalizing depth with
  | nil => rfl
  | cons t ts ih =>
    cases opened : openAfter? depth t.kind with
    | none => simp [openBlocks?, opened]
    | some depth' => simp [openBlocks?, opened, ih]

/-! ### The tokens of a tree -/

theorem openAfter?_of_rank {n : Nat} {k : Kind} (h : k.rank = n + 3) (depth : Nat) :
    openAfter? depth k = some depth := by
  unfold Kind.rank at h
  split at h
  case h_15 => omega
  all_goals rfl

theorem openAfter?_of_sign {k : Kind} (h : k ∈ signs) (depth : Nat) :
    openAfter? depth k = some depth := by
  simp only [signs, List.mem_cons, List.not_mem_nil, or_false] at h
  rcases h with rfl | rfl | rfl <;> rfl

/-- The tokens of a phrase close the blocks they open, and no other. The part of a conditional
after `else` stands in an open block. -/
def Phrase.KeepsOpen : Phrase → List Token → Prop
  | .otherwise _, ts => ∀ depth, openBlocks? (depth + 1) ts = some (depth + 1)
  | _, ts => ∀ depth, openBlocks? depth ts = some depth

theorem Derives.keepsOpen {same : Token → Token → Prop} {p : Phrase} {ts : List Token}
    (h : Derives same p ts) : p.KeepsOpen ts := by
  induction h with
  | noArgs | noElse | noStep | noParams | noStmts => intro depth; rfl
  | integer kind | real kind | yes kind | no kind | text kind | name kind | lastParam kind =>
    intro depth
    simp [openBlocks?, openAfter?, kind]
  | lastParamComma kind kind' =>
    intro depth
    simp [openBlocks?, openAfter?, kind, kind']
  | lastArg _ ih | base _ ih | unsigned _ ih | operand _ ih | tighter _ ih | callStmt _ ih
    | block _ ih => exact ih
  | group open' _ close ih =>
    intro depth
    simp [openBlocks?, openBlocks?_append, openAfter?, open', close, ih depth]
  | call kind open' _ close ih =>
    intro depth
    simp [openBlocks?, openBlocks?_append, openAfter?, kind, open', close, ih depth]
  | lastArgComma _ kind ih =>
    intro depth
    simp [openBlocks?, openBlocks?_append, openAfter?, kind, ih depth]
  | moreArgs _ kind _ ih ih' | assign _ kind _ ih ih' | raised _ _ kind _ ih ih' =>
    intro depth
    simp [openBlocks?, openBlocks?_append, openAfter?, kind, ih depth, ih' depth]
  | binary _ _ _ rank _ ih ih' | logical _ _ _ rank _ ih ih' =>
    intro depth
    simp [openBlocks?, openBlocks?_append, openAfter?_of_rank rank, ih depth, ih' depth]
  | sign _ sign _ ih =>
    intro depth
    simp [openBlocks?, openAfter?_of_sign sign, ih depth]
  | print kind _ ih | println kind _ ih | ret kind _ ih | someStep kind _ ih =>
    intro depth
    simp [openBlocks?, openAfter?, kind, ih depth]
  | orElse kind _ ih =>
    intro depth
    simp [openBlocks?, openAfter?, kind, ih (depth + 1)]
  | branch kind _ kind' _ _ close ih ih₁ ih₂ =>
    intro depth
    simp [openBlocks?, openBlocks?_append, openAfter?, kind, kind', close, ih (depth + 1),
      ih₁ (depth + 1), ih₂ depth]
  | loop kind _ kind' _ close ih ih₁ =>
    intro depth
    simp [openBlocks?, openBlocks?_append, openAfter?, kind, kind', close, ih (depth + 1),
      ih₁ (depth + 1)]
  | count kind named kind₂ _ kind₃ _ _ kind₅ _ close ih₂ ih₃ ih₄ ih₅ =>
    intro depth
    simp [openBlocks?, openBlocks?_append, openAfter?, kind, named, kind₂, kind₃, kind₅, close,
      ih₂ (depth + 1), ih₃ (depth + 1), ih₄ (depth + 1), ih₅ (depth + 1)]
  | func kind named kind₂ _ _ kind₃ _ close ih ih₃ =>
    intro depth
    simp [openBlocks?, openBlocks?_append, openAfter?, kind, named, kind₂, kind₃, close,
      ih (depth + 1), ih₃ (depth + 1)]
  | moreParams kind kind' _ ih =>
    intro depth
    simp [openBlocks?, openAfter?, kind, kind', ih depth]
  | assignLocal kind _ kind' _ ih ih' =>
    intro depth
    simp [openBlocks?, openBlocks?_append, openAfter?, kind, kind', ih depth, ih' depth]
  | moreStmts _ _ ih ih' =>
    intro depth
    simp [openBlocks?_append, ih depth, ih' depth]

/-- At the outermost level a word that ends a block belongs to none. -/
theorem openBlocks?_of_stray {read rest : List Token} {t : Token}
    (balanced : openBlocks? 0 read = some 0) (kind : t.kind = .kwElse ∨ t.kind = .kwEnd) :
    openBlocks? 0 (read ++ t :: rest) = none := by
  rw [openBlocks?_append, balanced]
  rcases kind with kind | kind <;> simp [openBlocks?, openAfter?, kind]

/-! ### Programs -/

/-- A program that was read is read again, to the same place and as the same statements, if what
follows is replaced by anything that ends a block. -/
theorem program_local {tokens : List Token} {b : Block} {c : Cursor}
    (given : (block (Cursor.ofList tokens)).Gives b c) {rest : List Token} (ends : EndsStmts rest)
    (nonempty : tokens.take c.position ++ rest ≠ []) :
    ∃ b' c' shorter, program (tokens.take c.position ++ rest) = .ok b' c' shorter ∧
      b'.stmts = b.stmts ∧ c'.position = c.position := by
  obtain ⟨ss, t, read, -, rfl⟩ := block_gives.mp given
  obtain ⟨ts, spans, again⟩ := stmts_local read
  obtain ⟨taken, -⟩ := spans_ofList spans
  rw [taken] at nonempty ⊢
  have read' : (stmts (Cursor.ofList (ts ++ rest))).Gives ss ⟨c.behind, rest⟩ := by
    rw [spans.behind]
    exact again [] rest ends
  have known : ∃ last, Cursor.previous? ⟨c.behind, rest⟩ = some last := by
    have behind := spans.behind
    cases read : c.behind with
    | cons last before => exact ⟨last, rfl⟩
    | nil =>
      have none : ts = [] := by simpa [read, Cursor.ofList] using behind.symm
      rw [none] at nonempty
      exact ⟨_, List.getLast?_eq_some_getLast nonempty⟩
  obtain ⟨last, known⟩ := known
  obtain ⟨shorter, parsed⟩ := block_gives.mpr ⟨ss, last, read', known, rfl⟩
  exact ⟨_, _, shorter, parsed, rfl, rfl⟩

/-- A program that is read is read to its end exactly if every word of it belongs to an open block.
Otherwise reading stops before the first word that belongs to none, and what stands after that word
is ignored: whatever stands there instead, the same statements are read. -/
theorem program_read_to_end_iff {tokens : List Token} {b : Block} {c : Cursor}
    {shorter : c.size < tokens.length + 1} (parsed : program tokens = .ok b c shorter) :
    (c.position = tokens.length ↔ openBlocks? 0 tokens = some 0) ∧
      (c.position ≠ tokens.length →
        ∃ read t rest, tokens = read ++ t :: rest ∧ read.length = c.position ∧
          (t.kind = .kwElse ∨ t.kind = .kwEnd) ∧ openBlocks? 0 read = some 0 ∧
          openBlocks? 0 tokens = none ∧
          ∀ more, ∃ b' c' shorter', program (read ++ t :: more) = .ok b' c' shorter' ∧
            b'.stmts = b.stmts ∧ c'.position = c.position) := by
  have given : (block (Cursor.ofList tokens)).Gives b c := ⟨shorter, parsed⟩
  obtain ⟨ts, spans, derived⟩ := block_derives given
  obtain ⟨taken, dropped⟩ := spans_ofList spans
  have balanced : openBlocks? 0 ts = some 0 := derived.keepsOpen 0
  have split : tokens = ts ++ c.ahead := spans.ahead
  rcases block_ends given with ended | ⟨t, rest, ahead, mem⟩
  · have whole := position_of_ended spans ended
    rw [ended, List.append_nil] at split
    exact ⟨⟨fun _ => by rw [split, balanced], fun _ => whole⟩, fun partly => absurd whole partly⟩
  · have kind : t.kind = .kwElse ∨ t.kind = .kwEnd := by simpa using mem
    have read : c.position = ts.length := by simp [Cursor.position, spans.behind, Cursor.ofList]
    rw [ahead] at split
    have stray : openBlocks? 0 tokens = none := split ▸ openBlocks?_of_stray balanced kind
    have partly : c.position ≠ tokens.length := by simp [split, read]
    refine ⟨⟨fun whole => absurd whole partly, fun all => ?_⟩, fun _ => ?_⟩
    · rw [stray] at all
      contradiction
    · refine ⟨ts, t, rest, split, read.symm, kind, balanced, stray, fun more => ?_⟩
      rw [← taken]
      exact program_local given (.inr ⟨t, more, rfl, mem⟩) (by simp)

/-- The tokens of `if a then f() end else g()`. -/
def strayElse : List Token :=
  [⟨.kwIf, "if", 1⟩, ⟨.identifier, "a", 1⟩, ⟨.kwThen, "then", 1⟩, ⟨.identifier, "f", 1⟩,
    ⟨.lparen, "(", 1⟩, ⟨.rparen, ")", 1⟩, ⟨.kwEnd, "end", 1⟩, ⟨.kwElse, "else", 1⟩,
    ⟨.identifier, "g", 1⟩, ⟨.lparen, "(", 1⟩, ⟨.rparen, ")", 1⟩]

/-- The `else` after the conditional belongs to no block; the call after it is not read. -/
theorem strayElse_read_in_part :
    ∃ b c shorter, program strayElse = .ok b c shorter ∧
      c.position = 7 ∧ openBlocks? 0 strayElse = none ∧
      ∀ more, ∃ b' c' shorter',
        program (strayElse.take 7 ++ ⟨.kwElse, "else", 1⟩ :: more) = .ok b' c' shorter' ∧
          b'.stmts = b.stmts ∧ c'.position = 7 := by
  have parsed : program strayElse =
      .ok (.mk [.branch (.name "a" 1) (.mk [.call "f" [] 1] 1) none 1] 1)
        ⟨(strayElse.take 7).reverse, strayElse.drop 7⟩ (by decide) := by
    cbv
  obtain ⟨-, partly⟩ := program_read_to_end_iff parsed
  obtain ⟨read, t, rest, split, length, -, -, stray, ignored⟩ := partly (by decide)
  have same : read = strayElse.take 7 ∧ t = ⟨.kwElse, "else", 1⟩ := by
    have split' : strayElse.take 7 ++ ⟨.kwElse, "else", 1⟩ :: strayElse.drop 8 =
        read ++ t :: rest := split
    obtain ⟨read', eq⟩ := List.append_inj split' length.symm
    injection eq with first _
    exact ⟨read'.symm, first.symm⟩
  obtain ⟨rfl, rfl⟩ := same
  exact ⟨_, _, _, parsed, rfl, stray, ignored⟩

/-- The tokens of `println 1 end println 2`. -/
def strayEnd : List Token :=
  [⟨.kwPrintln, "println", 1⟩, ⟨.integer, "1", 1⟩, ⟨.kwEnd, "end", 1⟩, ⟨.kwPrintln, "println", 1⟩,
    ⟨.integer, "2", 1⟩]

/-- A program is read without its last statement, and nothing is said about it. -/
theorem strayEnd_not_read_to_end :
    ∃ c shorter, program strayEnd = .ok (.mk [.print (.integer 1 1) (.str "\n") 1] 1) c shorter ∧
      c.position = 2 ∧ c.position ≠ strayEnd.length :=
  ⟨⟨(strayEnd.take 2).reverse, strayEnd.drop 2⟩, by decide, by cbv, rfl, by decide⟩

end ScriptLang.Parse
