import ScriptLang.Proofs.Parse.Complete

/-!
What stands around the tokens that a rule reads.

A rule that has read some tokens reads the same tree from them whatever stands before them and
whatever comes after, as long as the next token does not extend them (`level_local`, `stmt_local`).
The next token may be of a kind that could extend the tokens if it was of that kind before: it did
not extend them then. Lines are kept too, since they are those of tokens that were read
(`Again.lined`). Readings in sequence are read again one by one: what follows the first of them
still starts with the token that the second starts with (`Again.then`).
-/

namespace ScriptLang.Parse

/-! ### Replacing what follows -/

/-- The tokens `new` start with one of the kinds only if the tokens `old` start with the same. -/
def Replaces (kinds : List Kind) (old new : List Token) : Prop :=
  ∀ t ∈ new.head?, t.kind ∈ kinds → ∃ t' ∈ old.head?, t'.kind = t.kind

/-- Anything may follow. -/
def Any (_ _ : List Token) : Prop := True

/-- A token of one of the kinds follows. -/
def Follows (kinds : List Kind) (_ new : List Token) : Prop := Starts kinds new

/-- What ends a block follows. -/
def Ends (_ new : List Token) : Prop := EndsStmts new

variable {kinds kinds' : List Kind} {old new ts us : List Token}

theorem Replaces.mono (h : Replaces kinds old new) (sub : kinds' ⊆ kinds) :
    Replaces kinds' old new :=
  fun t head mem => h t head (sub mem)

theorem replaces_of_stops (stop : Stops kinds new) : Replaces kinds old new :=
  fun t head mem => absurd mem (stop t head)

theorem replaces_cons (t : Token) : Replaces kinds (t :: old) (t :: new) := by
  intro t' head _
  cases head
  exact ⟨t, rfl, rfl⟩

/-- Tokens in between are followed by themselves. -/
theorem Replaces.append (h : Replaces kinds old new) (us : List Token) :
    Replaces kinds (us ++ old) (us ++ new) := by
  cases us with
  | nil => exact h
  | cons t us => exact replaces_cons t

theorem Replaces.stops (h : Replaces kinds old new) (stop : Stops kinds old) :
    Stops kinds new := by
  intro t head mem
  obtain ⟨t', head', same⟩ := h t head mem
  exact stop t' head' (same ▸ mem)

/-! ### Reading again -/

variable {c c₁ c₂ c' : Cursor} {R S : Cursor → Cursor → Prop}
  {next next' : List Token → List Token → Prop}

/-- What has been read from one place to another is read again behind any other tokens, and if what
follows it is replaced. -/
def Again (R : Cursor → Cursor → Prop) (next : List Token → List Token → Prop) (c c' : Cursor) :
    Prop :=
  ∃ ts, c.Spans ts c' ∧
    ∀ behind rest, next c'.ahead rest → R ⟨behind, ts ++ rest⟩ ⟨ts.reverse ++ behind, rest⟩

/-- The rule gives a value, and still gives it behind any other tokens, and if what follows the
tokens it reads is replaced. -/
def Local {α : Type} {bound : Cursor → Nat} (rule : (c : Cursor) → Parsed α (bound c))
    (next : List Token → List Token → Prop) (c : Cursor) (a : α) (c' : Cursor) : Prop :=
  Again (fun x y => (rule x).Gives a y) next c c'

theorem size_le_of_spans (spans : c.Spans ts c') : c'.size ≤ c.size := by
  rw [Cursor.size, Cursor.size, spans.ahead, List.length_append]
  exact Nat.le_add_left _ _

/-- Where a rule has gone on, there was a token. -/
theorem cons_of_spans (spans : c.Spans ts c') (shorter : c'.size < c.size) :
    ∃ t us, ts = t :: us := by
  cases ts with
  | nil =>
    rw [Cursor.size, Cursor.size, spans.ahead] at shorter
    exact absurd shorter (Nat.lt_irrefl _)
  | cons t us => exact ⟨t, us, rfl⟩

theorem Again.size_le (h : Again R next c c') : c'.size ≤ c.size := by
  obtain ⟨ts, spans, -⟩ := h
  exact size_le_of_spans spans

theorem Again.map (h : Again R next c c') (maps : ∀ x y, R x y → S x y) : Again S next c c' := by
  obtain ⟨ts, spans, again⟩ := h
  exact ⟨ts, spans, fun behind rest follows => maps _ _ (again behind rest follows)⟩

theorem Again.mono (h : Again R next c c')
    (weaker : ∀ rest, next' c'.ahead rest → next c'.ahead rest) : Again R next' c c' := by
  obtain ⟨ts, spans, again⟩ := h
  exact ⟨ts, spans, fun behind rest follows => again behind rest (weaker rest follows)⟩

theorem Again.anyway (h : Again R Any c c') : Again R next c c' :=
  h.mono fun _ _ => trivial

theorem again_nothing
    (reads : ∀ behind rest, next c.ahead rest → R ⟨behind, rest⟩ ⟨behind, rest⟩) :
    Again R next c c :=
  ⟨[], .refl c, reads⟩

/-- One reading after another. -/
theorem Again.seq (first : Again R next c c₁) (second : Again S next' c₁ c₂)
    (follows : ∀ us rest, c₁.ahead = us ++ c₂.ahead → next' c₂.ahead rest →
      next c₁.ahead (us ++ rest)) :
    Again (fun x z => ∃ y, R x y ∧ S y z) next' c c₂ := by
  obtain ⟨ts, spans, again⟩ := first
  obtain ⟨us, spans', again'⟩ := second
  refine ⟨ts ++ us, spans.trans spans', fun behind rest after => ?_⟩
  rw [List.append_assoc, List.reverse_append, List.append_assoc]
  exact ⟨⟨ts.reverse ++ behind, us ++ rest⟩, again _ _ (follows us rest spans'.ahead after),
    again' _ rest after⟩

/-- What follows may be replaced behind its first token. -/
def Stays (next : List Token → List Token → Prop) (c : Cursor) : Prop :=
  ∀ t old new, c.ahead = t :: old → next c.ahead (t :: new)

theorem stays_any (c : Cursor) : Stays Any c := fun _ _ _ _ => trivial

theorem stays_replaces (kinds : List Kind) (c : Cursor) : Stays (Replaces kinds) c := by
  intro t old new ahead
  rw [ahead]
  exact replaces_cons t

theorem stays_follows (starts : Starts kinds c.ahead) : Stays (Follows kinds) c := by
  intro t old new ahead
  obtain ⟨t', rest, eq, mem⟩ := starts
  cases ahead.symm.trans eq
  exact ⟨t, new, rfl, mem⟩

theorem stays_ends (ends : EndsStmts c.ahead) : Stays Ends c := by
  intro t old new ahead
  rcases ends with none | starts
  · cases ahead.symm.trans none
  · exact .inr (stays_follows starts t old new ahead)

/-- One reading after another that reads a token. -/
theorem Again.then (first : Again R next c c₁) (stays : Stays next c₁)
    (second : Again S next' c₁ c₂) (shorter : c₂.size < c₁.size) :
    Again (fun x z => ∃ y, R x y ∧ S y z) next' c c₂ := by
  obtain ⟨us, spans, again⟩ := second
  obtain ⟨t, us, rfl⟩ := cons_of_spans spans shorter
  refine first.seq ⟨t :: us, spans, again⟩ fun vs rest ahead _ => ?_
  rw [List.append_cancel_right (ahead.symm.trans spans.ahead)]
  exact stays t _ _ spans.ahead

theorem again_past {t : Token} {after : List Token} (ahead : c.ahead = t :: after) :
    Again (fun x y => ∃ after, x.ahead = t :: after ∧ y = x.past t after) Any c (c.past t after) :=
  ⟨[t], .past ahead, fun _ rest _ => ⟨rest, rfl, rfl⟩⟩

theorem again_expect {k : Kind} {t : Token} (read : (c.expect k).Gives t c₁) :
    Again (fun x y => (x.expect k).Gives t y) Any c c₁ := by
  obtain ⟨after, ahead, kind, rfl⟩ := Cursor.expect_gives.mp read
  exact ⟨[t], .past ahead, fun _ rest _ => expect_past rfl kind⟩

theorem starts_of_expect {k : Kind} {t : Token} (read : (c.expect k).Gives t c₁) :
    Starts [k] c.ahead := by
  obtain ⟨after, ahead, kind, -⟩ := Cursor.expect_gives.mp read
  exact ⟨t, after, ahead, List.mem_singleton.mpr kind⟩

/-- The first of the tokens that were read is still there. -/
theorem Again.first (h : Again R next c c') (shorter : c'.size < c.size) :
    Again (fun x y => (∃ t old new, c.ahead = t :: old ∧ x.ahead = t :: new) ∧ R x y)
      next c c' := by
  obtain ⟨ts, spans, again⟩ := h
  obtain ⟨t, us, rfl⟩ := cons_of_spans spans shorter
  exact ⟨t :: us, spans, fun behind rest follows =>
    ⟨⟨t, us ++ c'.ahead, us ++ rest, spans.ahead, rfl⟩, again behind rest follows⟩⟩

/-- What was not next is not next again. -/
theorem Again.before (h : Again R next c c') (shorter : c'.size < c.size)
    (before : c.Before kinds) : Again (fun x y => x.Before kinds ∧ R x y) next c c' := by
  refine (h.first shorter).map ?_
  rintro x y ⟨⟨t, old, new, ahead, ahead'⟩, reads⟩
  exact ⟨(Cursor.before_of_ahead ahead').mpr ((Cursor.before_of_ahead ahead).mp before), reads⟩

/-- The token read last is the same around other tokens if it is one of those that are read
again. -/
theorem previous?_of_spans {behind rest : List Token} (spans : c.Spans ts c') (ne : ts ≠ []) :
    Cursor.previous? ⟨ts.reverse ++ behind, rest⟩ = c'.previous? := by
  rw [Cursor.previous?, Cursor.previous?, spans.behind]
  cases read : ts.reverse with
  | nil => exact absurd (List.reverse_eq_nil_iff.mp read) ne
  | cons t us => rfl

/-- The line of the token read last is kept. -/
theorem Again.lined (h : Again R next c c') (shorter : c'.size < c.size) :
    Again (fun x y => R x y ∧ y.lastLine = c'.lastLine) next c c' := by
  obtain ⟨ts, spans, again⟩ := h
  obtain ⟨t, us, rfl⟩ := cons_of_spans spans shorter
  refine ⟨t :: us, spans, fun behind rest follows => ⟨again behind rest follows, ?_⟩⟩
  rw [Cursor.lastLine, Cursor.lastLine, previous?_of_spans spans (List.cons_ne_nil t us)]

/-! ### Expressions -/

theorem nextIs_of_starts {behind rest : List Token} {k : Kind} (h : Starts [k] rest) :
    Cursor.nextIs ⟨behind, rest⟩ k = true := by
  obtain ⟨t, rest', rfl, mem⟩ := h
  exact nextIs_of_ahead rfl (List.mem_singleton.mp mem)

/-- What may follow an expression may follow one of a lower level in front of the rest of it. -/
theorem replaces_append (sub : kinds' ⊆ kinds) (us rest : List Token)
    (ahead : c₁.ahead = us ++ c₂.ahead) (follows : Replaces kinds c₂.ahead rest) :
    Replaces kinds' c₁.ahead (us ++ rest) := by
  rw [ahead]
  exact (follows.mono sub).append us

mutual
theorem level_local {n : Nat} {c c' : Cursor} {e : Expr} (h : (level n c).Gives e c') :
    Local (level n) (Replaces (extenders n)) c e c' := by
  cases n with
  | zero => exact (unary_local (level_zero_gives.mp h)).map fun _ _ => level_zero_gives.mpr
  | succ n =>
    obtain ⟨left, c₁, given, more⟩ := level_succ_gives.mp h
    have shorter := given.size_lt
    refine ((level_local given).seq (levelRest_local more)
      (replaces_append (List.subset_append_right _ _))).map ?_
    rintro x z ⟨y, given, more⟩
    exact level_succ_gives.mpr ⟨left, y, given, more⟩
termination_by (c.size, n + 3)
decreasing_by all_goals decreasing_with omega

theorem levelRest_local {n : Nat} {c c' : Cursor} {l e : Expr}
    (h : (levelRest n l c).Gives e c') :
    Local (levelRest n l) (Replaces (extenders (n + 1))) c e c' := by
  rcases levelRest_gives.mp h with
    ⟨op, after, right, c₁, ahead, mem, given, more⟩ | ⟨before, rfl, rfl⟩
  · have shorter := Cursor.size_past_lt ahead
    have shorter' := given.size_lt
    have right_local := (level_local given).seq (levelRest_local more)
      (replaces_append (List.subset_append_right _ _))
    have shorter'' := Nat.lt_of_le_of_lt (levelRest_local more).size_le shorter'
    refine ((again_past ahead).then (stays_any _) right_local shorter'').map ?_
    rintro x z ⟨_, ⟨after, ahead, rfl⟩, y, given, more⟩
    exact levelRest_gives.mpr (.inl ⟨op, after, right, y, ahead, mem, given, more⟩)
  · refine again_nothing fun _ rest follows => ?_
    have stop := (follows.mono (List.subset_append_left _ _)).stops before
    exact levelRest_gives.mpr (.inr ⟨stop.before, rfl, rfl⟩)
termination_by (c.size, 0)
decreasing_by all_goals decreasing_with omega

theorem unary_local {c c' : Cursor} {e : Expr} (h : (unary c).Gives e c') :
    Local unary (Replaces (extenders 0)) c e c' := by
  rcases unary_gives.mp h with ⟨op, after, operand, ahead, sign, given, rfl⟩ | ⟨before, given⟩
  · have shorter := Cursor.size_past_lt ahead
    refine ((again_past ahead).then (stays_any _) (unary_local given) given.size_lt).map ?_
    rintro x z ⟨_, ⟨after, ahead, rfl⟩, given⟩
    exact unary_gives.mpr (.inl ⟨op, after, operand, ahead, sign, given, rfl⟩)
  · refine ((exponent_local given).before given.size_lt before).map ?_
    rintro x y ⟨before, given⟩
    exact unary_gives.mpr (.inr ⟨before, given⟩)
termination_by (c.size, 2)
decreasing_by all_goals decreasing_with omega

theorem exponent_local {c c' : Cursor} {e : Expr} (h : (exponent c).Gives e c') :
    Local exponent (Replaces (extenders 0)) c e c' := by
  obtain ⟨left, c₁, given, more⟩ := exponent_gives.mp h
  have shorter := given.size_lt
  refine ((primary_local given).seq (exponentRest_local more)
    (replaces_append (by simp [extenders]))).map ?_
  rintro x z ⟨y, given, more⟩
  exact exponent_gives.mpr ⟨left, y, given, more⟩
termination_by (c.size, 1)
decreasing_by all_goals decreasing_with omega

theorem exponentRest_local {c c' : Cursor} {l e : Expr} (h : (exponentRest l c).Gives e c') :
    Local (exponentRest l) (Replaces (extenders 0)) c e c' := by
  rcases exponentRest_gives.mp h with
    ⟨op, after, right, c₁, ahead, caret, given, more⟩ | ⟨before, rfl, rfl⟩
  · have shorter := Cursor.size_past_lt ahead
    have shorter' := given.size_lt
    have right_local := (exponent_local given).seq (exponentRest_local more)
      (replaces_append (List.Subset.refl _))
    have shorter'' := Nat.lt_of_le_of_lt (exponentRest_local more).size_le shorter'
    refine ((again_past ahead).then (stays_any _) right_local shorter'').map ?_
    rintro x z ⟨_, ⟨after, ahead, rfl⟩, y, given, more⟩
    exact exponentRest_gives.mpr (.inl ⟨op, after, right, y, ahead, caret, given, more⟩)
  · refine again_nothing fun _ rest follows => ?_
    have stop : Stops [.caret] rest := (follows.mono (by simp [extenders])).stops before
    exact exponentRest_gives.mpr (.inr ⟨stop.before, rfl, rfl⟩)
termination_by (c.size, 0)
decreasing_by all_goals decreasing_with omega

theorem primary_local {c c' : Cursor} {e : Expr} (h : (primary c).Gives e c') :
    Local primary (Replaces [.lparen]) c e c' := by
  cases primary_gives.mp h with
  | integer ahead kind read =>
    exact ⟨_, .past ahead, fun _ rest _ => primary_gives.mpr (.integer rfl kind read)⟩
  | real ahead kind read =>
    exact ⟨_, .past ahead, fun _ rest _ => primary_gives.mpr (.real rfl kind read)⟩
  | yes ahead kind => exact ⟨_, .past ahead, fun _ rest _ => primary_gives.mpr (.yes rfl kind)⟩
  | no ahead kind => exact ⟨_, .past ahead, fun _ rest _ => primary_gives.mpr (.no rfl kind)⟩
  | text ahead kind => exact ⟨_, .past ahead, fun _ rest _ => primary_gives.mpr (.text rfl kind)⟩
  | name ahead kind before =>
    refine ⟨_, .past ahead, fun _ rest follows => primary_gives.mpr (.name rfl kind ?_)⟩
    exact (follows.stops before).before
  | group ahead kind given ahead' closes =>
    have shorter := Cursor.size_past_lt ahead
    have shorter' := Cursor.size_past_lt ahead'
    have inner := (level_local given).then (stays_replaces _ _) (again_past ahead') shorter'
    refine ((again_past ahead).then (stays_any _) inner
      (Nat.lt_trans shorter' given.size_lt)).anyway.map ?_
    rintro x z ⟨_, ⟨after, ahead, rfl⟩, y, given, after', ahead', rfl⟩
    exact primary_gives.mpr (.group ahead kind given ahead' closes)
  | @call t paren after _ c₁ close after' ahead kind opens given ahead' closes =>
    have shorter := Cursor.size_past_lt ahead
    have opening : (c.past t (paren :: after)).ahead = paren :: after := rfl
    have shorter' := Cursor.size_past_lt opening
    have shorter'' := Cursor.size_past_lt ahead'
    have starts : Starts [.rparen] c₁.ahead := ⟨close, after', ahead', by simp [closes]⟩
    have inner := (args_local given).then (stays_follows starts) (again_past ahead') shorter''
    have less := Nat.lt_of_lt_of_le shorter'' (args_local given).size_le
    have opened := (again_past opening).then (stays_any _) inner less
    refine ((again_past ahead).then (stays_any _) opened
      (Nat.lt_trans less shorter')).anyway.map ?_
    rintro x z ⟨_, ⟨rest, ahead, rfl⟩, _, ⟨rest', opening, rfl⟩, y, given, after', ahead', rfl⟩
    obtain rfl : rest = paren :: rest' := opening
    exact primary_gives.mpr (.call ahead kind opens given ahead' closes)
termination_by (c.size, 0)
decreasing_by all_goals decreasing_with omega

theorem args_local {c c' : Cursor} {es : List Expr} (h : (args c).Gives es c') :
    Local args (Follows [.rparen]) c es c' := by
  cases args_gives.mp h with
  | none closes =>
    exact again_nothing fun _ rest closed => args_gives.mpr (.none (nextIs_of_starts closed))
  | last before given closes =>
    obtain ⟨ts, spans, again⟩ := (level_local given).before given.size_lt before
    refine ⟨ts, spans, fun behind rest closed => ?_⟩
    obtain ⟨before, given⟩ := again behind rest (replaces_of_stops (closed.stops (by decide)))
    exact args_gives.mpr (.last before given (nextIs_of_starts closed))
  | more before given separated others =>
    have shorter := given.size_lt
    have shorter' := separated.size_lt
    have tail := (again_expect separated).seq (args_local others) fun _ _ _ _ => trivial
    have shorter'' := Nat.lt_of_le_of_lt (args_local others).size_le shorter'
    have all := (level_local given).then (stays_replaces _ _) tail shorter''
    refine (all.before (Nat.lt_trans shorter'' shorter) before).map ?_
    rintro x z ⟨before, y, given, y', separated, others⟩
    exact args_gives.mpr (.more before given separated others)
termination_by (c.size, levels + 4)
decreasing_by all_goals decreasing_with omega
end

theorem expr_local {c c' : Cursor} {e : Expr} (h : (expr c).Gives e c') :
    Local expr (Replaces (extenders levels)) c e c' :=
  level_local h

/-! ### Parts of statements -/

theorem params_local {count : Nat} {c c' : Cursor} {ps : List Param}
    (h : (params count c).Gives ps c') : Local (params count) (Follows [.rparen]) c ps c' := by
  cases params_gives.mp h with
  | none closes =>
    exact again_nothing fun _ rest closed => params_gives.mpr (.none (nextIs_of_starts closed))
  | last read few closes =>
    obtain ⟨ts, spans, again⟩ := again_expect read
    refine ⟨ts, spans, fun behind rest closed => params_gives.mpr ?_⟩
    exact .last (again behind rest trivial) few (nextIs_of_starts closed)
  | more read few separated others =>
    have shorter := read.size_lt
    have shorter' := separated.size_lt
    have tail := (again_expect separated).seq (params_local others) fun _ _ _ _ => trivial
    refine ((again_expect read).seq tail fun _ _ _ _ => trivial).map ?_
    rintro x z ⟨y, read, y', separated, others⟩
    exact params_gives.mpr (.more read few separated others)
termination_by c.size
decreasing_by all_goals decreasing_with omega

theorem exprAfter?_local {k : Kind} {c c' : Cursor} {o : Option Expr}
    (h : (exprAfter? k c).Gives o c') :
    Local (exprAfter? k) (Replaces (k :: extenders levels)) c o c' := by
  rcases exprAfter?_gives.mp h with ⟨t, c₁, e, read, given, rfl⟩ | ⟨before, rfl, rfl⟩
  · refine (((again_expect read).seq (expr_local given) fun _ _ _ _ => trivial).map ?_).mono
      fun rest follows => follows.mono (List.subset_cons_self _ _)
    rintro x z ⟨y, read, given⟩
    exact exprAfter?_gives.mpr (.inl ⟨t, y, e, read, given, rfl⟩)
  · refine again_nothing fun _ rest follows => exprAfter?_gives.mpr (.inr ⟨?_, rfl, rfl⟩)
    exact ((follows.mono (by simp)).stops before).before

/-- An expression behind a token, with the line that it ends on. -/
theorem again_exprAfter {k : Kind} {t : Token} {e : Expr} (read : (c.expect k).Gives t c₁)
    (given : (expr c₁).Gives e c') :
    Again (fun x z => ∃ y, (x.expect k).Gives t y ∧ (expr y).Gives e z ∧ z.lastLine = c'.lastLine)
      (Replaces stmtExtenders) c c' := by
  have value : Local expr (Replaces stmtExtenders) c₁ e c' :=
    (expr_local given).mono fun rest follows => follows.mono (List.subset_cons_self _ _)
  exact (again_expect read).seq (value.lined given.size_lt) fun _ _ _ _ => trivial

theorem endsStmts_of_endsBlock {c : Cursor} (h : endsBlock c = true) : EndsStmts c.ahead := by
  rcases endsBlock_iff.mp h with ended | closes | closes
  · exact .inl ended
  · obtain ⟨t, rest, ahead, kind⟩ := Cursor.nextIs_iff.mp closes
    exact .inr ⟨t, rest, ahead, by simp [kind]⟩
  · obtain ⟨t, rest, ahead, kind⟩ := Cursor.nextIs_iff.mp closes
    exact .inr ⟨t, rest, ahead, by simp [kind]⟩

/-- A block that goes on with a token goes on with it again. -/
theorem endsBlock_of_first {x : Cursor} {t : Token} (ahead : c.ahead = t :: old)
    (ahead' : x.ahead = t :: new) (goesOn : endsBlock c = false) : endsBlock x = false := by
  rw [Bool.eq_false_iff] at goesOn ⊢
  intro ends
  have ends' := stays_ends (endsStmts_of_endsBlock ends) t new old ahead'
  exact goesOn (endsBlock_of_endsStmts (ahead ▸ ends'))

theorem block_ends {c c' : Cursor} {b : Block} (h : (block c).Gives b c') : EndsStmts c'.ahead := by
  obtain ⟨ss, t, given, -, rfl⟩ := block_gives.mp h
  exact endsStmts_of_endsBlock (stmts_derives given).2

/-! ### Statements -/

/-- A block behind a word. The word is there for the line of the block, should it be empty. -/
theorem again_blockAfter {k : Kind} {t : Token} {b : Block} (read : (c.expect k).Gives t c₁)
    (given : (block c₁).Gives b c')
    (body : ∀ ss, (stmts c₁).Gives ss c' → Local stmts Ends c₁ ss c') :
    Again (fun x z => ∃ y, (x.expect k).Gives t y ∧ (block y).Gives b z) Ends c c' := by
  obtain ⟨ss, last, statements, previous, rfl⟩ := block_gives.mp given
  obtain ⟨ts, spans, again⟩ :=
    (again_expect read).seq (body ss statements) fun _ _ _ _ => trivial
  have shorter : c'.size < c.size :=
    Nat.lt_of_le_of_lt (Nat.le_of_lt_succ given.size_lt) read.size_lt
  obtain ⟨u, us, rfl⟩ := cons_of_spans spans shorter
  refine ⟨u :: us, spans, fun behind rest ends => ?_⟩
  obtain ⟨y, read, statements⟩ := again behind rest ends
  refine ⟨y, read, block_gives.mpr ⟨ss, last, statements, ?_, rfl⟩⟩
  rw [previous?_of_spans spans (List.cons_ne_nil u us), previous]

/-- What ends with a block, and the word that ends its statement. -/
theorem again_close {close : Token} (body : Again R Ends c c₁)
    (read : (c₁.expect .kwEnd).Gives close c') :
    Again (fun x z => ∃ y, R x y ∧ (y.expect .kwEnd).Gives close z) Any c c' := by
  have ends : EndsStmts c₁.ahead := .inr ((starts_of_expect read).mono (by simp))
  exact body.then (stays_ends ends) (again_expect read) read.size_lt

mutual
theorem stmt_local {c c' : Cursor} {s : Stmt} (h : (stmt c).Gives s c') :
    Local stmt (Replaces stmtExtenders) c s c' := by
  cases stmt_gives.mp h with
  | print r₁ r₂ =>
    refine (again_exprAfter r₁ r₂).map ?_
    rintro x z ⟨y, r₁, r₂, line⟩
    rw [← line]
    exact stmt_gives.mpr (.print r₁ r₂)
  | println r₁ r₂ =>
    refine (again_exprAfter r₁ r₂).map ?_
    rintro x z ⟨y, r₁, r₂, line⟩
    rw [← line]
    exact stmt_gives.mpr (.println r₁ r₂)
  | ret r₁ r₂ =>
    refine (again_exprAfter r₁ r₂).map ?_
    rintro x z ⟨y, r₁, r₂, line⟩
    rw [← line]
    exact stmt_gives.mpr (.ret r₁ r₂)
  | branch r₁ r₂ r₃ r₄ r₅ r₆ =>
    have l₁ := r₁.size_lt
    have l₂ := r₂.size_lt
    have l₃ := r₃.size_lt
    have l₄ := r₄.size_lt
    have l₅ := (elseBlock?_local r₅).size_le
    have l₆ := r₆.size_lt
    have close := (elseBlock?_local r₅).then (stays_follows (starts_of_expect r₆))
      (again_expect r₆) l₆
    have body := again_blockAfter r₃ r₄ fun _ given => stmts_local given
    have rest := (expr_local r₂).then (stays_replaces _ _)
      (body.then (stays_ends (block_ends r₄)) close (by omega)) (by omega)
    refine ((again_expect r₁).then (stays_any _) rest (by omega)).anyway.map ?_
    rintro x z ⟨y₁, r₁, y₂, r₂, y₄, ⟨y₃, r₃, r₄⟩, y₅, r₅, r₆⟩
    exact stmt_gives.mpr (.branch r₁ r₂ r₃ r₄ r₅ r₆)
  | loop r₁ r₂ r₃ r₄ r₅ =>
    have l₁ := r₁.size_lt
    have l₂ := r₂.size_lt
    have l₃ := r₃.size_lt
    have l₄ := r₄.size_lt
    have l₅ := r₅.size_lt
    have body := again_close (again_blockAfter r₃ r₄ fun _ given => stmts_local given) r₅
    have rest := (expr_local r₂).then (stays_replaces _ _) body (by omega)
    refine ((again_expect r₁).then (stays_any _) rest (by omega)).anyway.map ?_
    rintro x z ⟨y₁, r₁, y₂, r₂, y₄, ⟨y₃, r₃, r₄⟩, r₅⟩
    exact stmt_gives.mpr (.loop r₁ r₂ r₃ r₄ r₅)
  | count r₁ r₂ r₃ r₄ r₅ r₆ r₇ r₈ r₉ r₁₀ =>
    have l₁ := r₁.size_lt
    have l₂ := r₂.size_lt
    have l₃ := r₃.size_lt
    have l₄ := r₄.size_lt
    have l₅ := r₅.size_lt
    have l₆ := r₆.size_lt
    have l₇ := (exprAfter?_local r₇).size_le
    have l₈ := r₈.size_lt
    have l₉ := r₉.size_lt
    have l₁₀ := r₁₀.size_lt
    have body := again_close (again_blockAfter r₈ r₉ fun _ given => stmts_local given) r₁₀
    have step := (exprAfter?_local r₇).then (stays_replaces _ _) body (by omega)
    have stop := (again_expect r₅).then (stays_any _)
      ((expr_local r₆).then (stays_replaces _ _) step (by omega)) (by omega)
    have start := (again_expect r₃).then (stays_any _)
      ((expr_local r₄).then (stays_replaces _ _) stop (by omega)) (by omega)
    have rest := (primary_local r₂).then (stays_replaces _ _) start (by omega)
    refine ((again_expect r₁).then (stays_any _) rest (by omega)).anyway.map ?_
    rintro x z
      ⟨y₁, r₁, y₂, r₂, y₃, r₃, y₄, r₄, y₅, r₅, y₆, r₆, y₇, r₇, y₉, ⟨y₈, r₈, r₉⟩, r₁₀⟩
    exact stmt_gives.mpr (.count r₁ r₂ r₃ r₄ r₅ r₆ r₇ r₈ r₉ r₁₀)
  | func r₁ r₂ r₃ r₄ r₅ r₆ r₇ =>
    have l₁ := r₁.size_lt
    have l₂ := r₂.size_lt
    have l₃ := r₃.size_lt
    have l₄ := (params_local r₄).size_le
    have l₅ := r₅.size_lt
    have l₆ := r₆.size_lt
    have l₇ := r₇.size_lt
    have body := again_close (again_blockAfter r₅ r₆ fun _ given => stmts_local given) r₇
    have list := (params_local r₄).then (stays_follows (starts_of_expect r₅)) body (by omega)
    have rest := (again_expect r₂).then (stays_any _)
      ((again_expect r₃).then (stays_any _) list (by omega)) (by omega)
    refine ((again_expect r₁).then (stays_any _) rest (by omega)).anyway.map ?_
    rintro x z ⟨y₁, r₁, y₂, r₂, y₃, r₃, y₄, r₄, y₆, ⟨y₅, r₅, r₆⟩, r₇⟩
    exact stmt_gives.mpr (.func r₁ r₂ r₃ r₄ r₅ r₆ r₇)
  | assignLocal r₁ r₂ r₃ r₄ =>
    have l₂ := r₂.size_lt
    have l₃ := r₃.size_lt
    have l₄ := r₄.size_lt
    have rest := (expr_local r₂).then (stays_replaces _ _) (again_exprAfter r₃ r₄) (by omega)
    refine ((again_expect r₁).then (stays_any _) rest (by omega)).map ?_
    rintro x z ⟨y₁, r₁, y₂, r₂, y₃, r₃, r₄, line⟩
    rw [← line]
    exact stmt_gives.mpr (.assignLocal r₁ r₂ r₃ r₄)
  | assign nonempty words r₁ r₂ r₃ =>
    have l₁ := r₁.size_lt
    have l₂ := r₂.size_lt
    have l₃ := r₃.size_lt
    have all := (expr_local r₁).then (stays_replaces _ _) (again_exprAfter r₂ r₃) (by omega)
    refine ((all.before (by omega) words).first (by omega)).map ?_
    rintro x z ⟨⟨t, -, new, -, ahead⟩, words, y₁, r₁, y₂, r₂, r₃, line⟩
    rw [← line]
    exact stmt_gives.mpr (.assign (ahead ▸ List.cons_ne_nil t new) words r₁ r₂ r₃)
  | call nonempty words r₁ before =>
    obtain ⟨ts, spans, again⟩ := ((expr_local r₁).before r₁.size_lt words).first r₁.size_lt
    refine ⟨ts, spans, fun behind rest follows => ?_⟩
    obtain ⟨⟨t, -, new, -, ahead⟩, words, r₁⟩ :=
      again behind rest (follows.mono (List.subset_cons_self _ _))
    have stop := (follows.mono (by simp [stmtExtenders])).stops before
    exact stmt_gives.mpr (.call (ahead ▸ List.cons_ne_nil t new) words r₁ stop.before)
termination_by (c.size, 1)
decreasing_by all_goals decreasing_with omega

theorem elseBlock?_local {c c' : Cursor} {o : Option Block} (h : (elseBlock? c).Gives o c') :
    Local elseBlock? (Follows [.kwEnd]) c o c' := by
  rcases elseBlock?_gives.mp h with ⟨t, c₁, b, read, given, rfl⟩ | ⟨before, rfl, rfl⟩
  · have shorter := read.size_lt
    have body := again_blockAfter read given fun _ given => stmts_local given
    refine (body.mono fun rest word => .inr (Starts.mono word (by simp))).map ?_
    rintro x z ⟨y, read, given⟩
    exact elseBlock?_gives.mpr (.inl ⟨t, y, b, read, given, rfl⟩)
  · refine again_nothing fun _ rest word => elseBlock?_gives.mpr (.inr ⟨?_, rfl, rfl⟩)
    exact (word.stops (by simp)).before
termination_by (c.size, 0)
decreasing_by all_goals decreasing_with omega

theorem stmts_local {c c' : Cursor} {ss : List Stmt} (h : (stmts c).Gives ss c') :
    Local stmts Ends c ss c' := by
  rcases stmts_gives.mp h with ⟨ends, rfl, rfl⟩ | ⟨goesOn, s, c₁, others, given, more, rfl⟩
  · refine again_nothing fun _ rest ends => stmts_gives.mpr (.inl ⟨?_, rfl, rfl⟩)
    exact endsBlock_of_endsStmts ends
  · have shorter := given.size_lt
    have follows : ∀ us rest, c₁.ahead = us ++ c'.ahead → Ends c'.ahead rest →
        Replaces stmtExtenders c₁.ahead (us ++ rest) := by
      intro us rest ahead ends
      rw [ahead]
      exact (replaces_of_stops (EndsStmts.stops ends (by decide))).append us
    refine (((stmt_local given).first shorter).seq (stmts_local more) follows).map ?_
    rintro x z ⟨y, ⟨⟨t, old, new, ahead, ahead'⟩, given⟩, more⟩
    exact stmts_gives.mpr
      (.inr ⟨endsBlock_of_first ahead ahead' goesOn, s, y, others, given, more, rfl⟩)
termination_by (c.size, 2)
decreasing_by all_goals decreasing_with omega
end

end ScriptLang.Parse
