import ScriptLang.Proofs.Parse.Sound
import ScriptLang.Proofs.Tree.Lines
import ScriptLang.Proofs.Tree.Shape

/-!
The parser finds every tree that the grammar writes.

Tokens that the grammar derives for a phrase are read back as that phrase, up to lines, whenever
the token after them cannot extend it (`Derives.readBack`). For an expression the tokens that could
extend it are an opening parenthesis, a power sign and the operators of its levels (`extenders`);
after a statement an assignment sign is to be excluded too. If only names are assigned to, no
statement starts with such a token, so statements need no separator.
-/

namespace ScriptLang.Parse

/-! ### What can follow -/

/-- A list of tokens does not start with a token of the given kinds. -/
def Stops (kinds : List Kind) (rest : List Token) : Prop :=
  ∀ t ∈ rest.head?, t.kind ∉ kinds

theorem stops_nil {kinds : List Kind} : Stops kinds [] := by
  simp [Stops]

@[simp] theorem stops_cons {kinds : List Kind} {t : Token} {rest : List Token} :
    Stops kinds (t :: rest) ↔ t.kind ∉ kinds := by
  simp [Stops]

theorem Stops.mono {kinds kinds' : List Kind} {rest : List Token} (h : Stops kinds rest)
    (sub : kinds' ⊆ kinds) : Stops kinds' rest :=
  fun t ht mem => h t ht (sub mem)

theorem Stops.before {kinds : List Kind} {c : Cursor} (h : Stops kinds c.ahead) :
    c.Before kinds := h

/-- The kinds of tokens that extend an expression with operators of the first `n` levels. -/
def extenders : Nat → List Kind
  | 0 => [.lparen, .caret]
  | n + 1 => operators n ++ extenders n

theorem extenders_subset {m n : Nat} (h : m ≤ n) : extenders m ⊆ extenders n := by
  induction h with
  | refl => exact List.Subset.refl _
  | step _ ih => exact fun k mem => List.mem_append_right _ (ih mem)

theorem rank_le_of_mem_extenders {n : Nat} {k : Kind} (hn : n ≤ loosest) (h : k ∈ extenders n) :
    k.rank ≤ n + 2 := by
  induction n with
  | zero =>
    simp only [extenders, List.mem_cons, List.not_mem_nil, or_false] at h
    rcases h with rfl | rfl <;> simp [Kind.rank]
  | succ n ih =>
    rcases List.mem_append.mp h with h | h
    · have := (mem_operators_iff (by omega)).mp h
      omega
    · have := ih (by omega) h
      omega

/-- An operator does not extend an expression of tighter operators. -/
theorem not_mem_extenders_of_operator {n : Nat} {k : Kind} (hn : n < loosest)
    (h : k ∈ operators n) : k ∉ extenders n := by
  intro mem
  have := rank_le_of_mem_extenders (by omega) mem
  rw [(mem_operators_iff hn).mp h] at this
  omega

/-- The kinds of tokens that extend an expression or a statement. -/
def stmtExtenders : List Kind := .assign :: extenders levels

/-! ### How phrases start -/

/-- The kinds of tokens that an operand without a sign starts with. -/
def operandStarts : List Kind :=
  [.integer, .float, .kwTrue, .kwFalse, .string, .lparen, .identifier]

/-- The kinds of tokens that a statement starts with if only names are assigned to. -/
def stmtStarts : List Kind := .identifier :: statementWords

/-- A list of tokens starts with a token of the given kinds. -/
def Starts (kinds : List Kind) (ts : List Token) : Prop :=
  ∃ t rest, ts = t :: rest ∧ t.kind ∈ kinds

theorem Starts.append {kinds : List Kind} {ts : List Token} (h : Starts kinds ts)
    (us : List Token) : Starts kinds (ts ++ us) := by
  obtain ⟨t, rest, rfl, mem⟩ := h
  exact ⟨t, rest ++ us, rfl, mem⟩

theorem Starts.mono {kinds kinds' : List Kind} {ts : List Token} (h : Starts kinds ts)
    (sub : kinds ⊆ kinds') : Starts kinds' ts := by
  obtain ⟨t, rest, rfl, mem⟩ := h
  exact ⟨t, rest, rfl, sub mem⟩

theorem Starts.stops {kinds kinds' : List Kind} {ts : List Token} (h : Starts kinds ts)
    (disjoint : ∀ k ∈ kinds, k ∉ kinds') : Stops kinds' ts := by
  obtain ⟨t, rest, rfl, mem⟩ := h
  exact stops_cons.mpr (disjoint _ mem)

/-- How the tokens of an expression start. -/
def Phrase.StartsRight : Phrase → List Token → Prop
  | .primary _, ts | .power _, ts => Starts operandStarts ts
  | .signed _, ts | .level _ _, ts => Starts (signs ++ operandStarts) ts
  | _, _ => True

variable {same : Token → Token → Prop}

theorem Derives.startsRight {p : Phrase} {ts : List Token} (h : Derives same p ts) :
    p.StartsRight ts := by
  induction h with
  | integer kind | real kind | yes kind | no kind | text kind | name kind =>
    exact ⟨_, [], rfl, by simp [kind, operandStarts]⟩
  | group kind | call kind => exact ⟨_, _, rfl, by simp [kind, operandStarts]⟩
  | sign _ sign => exact ⟨_, _, rfl, List.mem_append_left _ sign⟩
  | base _ ih | operand _ ih | tighter _ ih => exact ih
  | unsigned _ ih => exact ih.mono (List.subset_append_right _ _)
  | raised _ _ _ _ ih | binary _ _ _ _ _ ih | logical _ _ _ _ _ ih => exact ih.append _
  | _ => trivial

/-- A target that is a name is written as one identifier. -/
theorem Derives.identifier_of_name {e : Expr} {ts : List Token}
    (h : Derives same (.level loosest e) ts) (named : e.isName = true) :
    Starts [.identifier] ts := by
  cases e with
  | name n line =>
    cases h.primary_of_level rfl with
    | name kind => exact ⟨_, [], rfl, by simp [kind]⟩
  | _ => simp [Expr.isName] at named

theorem Derives.starts_stmt {s : Stmt} {ts : List Token} (h : Derives same (.stmt s) ts)
    (named : s.all Stmt.assignsName = true) : Starts stmtStarts ts := by
  cases h with
  | print kind | println kind | branch kind | loop kind | count kind | func kind | ret kind
  | assignLocal kind => exact ⟨_, _, rfl, by simp [kind, stmtStarts, statementWords]⟩
  | assign target =>
    obtain ⟨t, rest, rfl, mem⟩ := target.identifier_of_name (Stmt.holds_of_all named)
    exact ⟨t, _, rfl, List.mem_cons.mpr (.inl (List.mem_singleton.mp mem))⟩
  | callStmt call =>
    cases call with
    | call kind => exact ⟨_, _, rfl, by simp [kind, stmtStarts]⟩

theorem Derives.starts_stmts {ss : List Stmt} {ts : List Token} (h : Derives same (.stmts ss) ts)
    (named : Stmt.allOf Stmt.assignsName ss = true) : ts = [] ∨ Starts stmtStarts ts := by
  cases h with
  | noStmts => exact .inl rfl
  | moreStmts first =>
    rw [Stmt.allOf, Bool.and_eq_true] at named
    exact .inr ((first.starts_stmt named.1).append _)

/-- What follows the statements of a block: nothing, or the word that ends the block. -/
def EndsStmts (rest : List Token) : Prop :=
  rest = [] ∨ Starts [.kwElse, .kwEnd] rest

theorem EndsStmts.stops {rest : List Token} {kinds : List Kind} (h : EndsStmts rest)
    (disjoint : ∀ k ∈ [Kind.kwElse, Kind.kwEnd], k ∉ kinds) : Stops kinds rest := by
  rcases h with rfl | starts
  · exact stops_nil
  · exact starts.stops disjoint

theorem Derives.starts_otherwise {o : Option Block} {ts : List Token}
    (h : Derives same (.otherwise o) ts) {close : Token} (closes : close.kind = .kwEnd)
    (rest : List Token) : EndsStmts (ts ++ close :: rest) := by
  cases h with
  | noElse => exact .inr ⟨close, rest, rfl, by simp [closes]⟩
  | orElse kind => exact .inr ⟨_, _, rfl, by simp [kind]⟩

/-! ### Reading back expressions -/

/-- The rule gives the value that is wanted, as far as `view` shows it, and stops before `rest`. -/
def Recovers {α β : Type} {n : Nat} (r : Parsed α n) (view : α → β) (a : α) (rest : List Token) :
    Prop :=
  ∃ a' c', r.Gives a' c' ∧ c'.ahead = rest ∧ view a' = view a

/-- The rule for `n` levels goes on at `c'` with the operand `e`. -/
def Continues : Nat → Cursor → Expr → Cursor → Prop
  | 0, c, e, c' => (level 0 c).Gives e c'
  | n + 1, c, e, c' => ∀ e' c'', (levelRest n e c').Gives e' c'' → (level (n + 1) c).Gives e' c''

theorem Continues.gives {n : Nat} {c c' : Cursor} {e : Expr} (h : Continues n c e c')
    (stop : Stops (extenders n) c'.ahead) : (level n c).Gives e c' := by
  cases n with
  | zero => exact h
  | succ n =>
    have stop' : Stops (operators n) c'.ahead := stop.mono (List.subset_append_left _ _)
    exact h e c' (levelRest_gives.mpr (.inr ⟨stop'.before, rfl, rfl⟩))

/-- What it is for the tokens of a phrase to be read back. An expression of `n + 1` levels is read
up to the loop over its loosest operators, which may go on. -/
def Phrase.ReadBack : Phrase → List Token → Prop
  | .primary e, ts => ∀ c rest, c.ahead = ts ++ rest → Stops [.lparen] rest →
      Recovers (Parse.primary c) Expr.unlined e rest
  | .power e, ts => ∀ c rest, c.ahead = ts ++ rest → Stops (extenders 0) rest →
      Recovers (exponent c) Expr.unlined e rest
  | .signed e, ts => ∀ c rest, c.ahead = ts ++ rest → Stops (extenders 0) rest →
      Recovers (unary c) Expr.unlined e rest
  | .level n e, ts => n ≤ loosest → ∀ c rest, c.ahead = ts ++ rest →
      Stops (extenders (n - 1)) rest →
      ∃ e' c', Continues n c e' c' ∧ c'.ahead = rest ∧ e'.unlined = e.unlined
  | .args es, ts => ∀ c close rest, c.ahead = ts ++ close :: rest → close.kind = .rparen →
      Recovers (Parse.args c) Expr.unlinedAll es (close :: rest)
  | .step o, ts => ∀ c rest, c.ahead = ts ++ rest → Stops (.comma :: extenders levels) rest →
      Recovers (exprAfter? .comma c) (Option.map Expr.unlined) o rest
  | .params ps, ts => ∀ count c close rest, count + ps.length ≤ maxParams →
      c.ahead = ts ++ close :: rest → close.kind = .rparen →
      Recovers (Parse.params count c) (List.map Param.unlined) ps (close :: rest)
  | .stmt s, ts => s.all Stmt.assignsName = true → ∀ c rest, c.ahead = ts ++ rest →
      Stops stmtExtenders rest → Recovers (Parse.stmt c) Stmt.unlined s rest
  | .stmts ss, ts => Stmt.allOf Stmt.assignsName ss = true → ∀ c rest, c.ahead = ts ++ rest →
      EndsStmts rest → Recovers (Parse.stmts c) Stmt.unlinedAll ss rest
  | .block b, ts => b.all Stmt.assignsName = true → ∀ c rest, c.ahead = ts ++ rest →
      EndsStmts rest → (c.behind ≠ [] ∨ ts ≠ []) →
      Recovers (Parse.block c) Block.unlined b rest
  | .otherwise o, ts => Block.allElse Stmt.assignsName o = true → ∀ c close rest,
      c.ahead = ts ++ close :: rest → close.kind = .kwEnd →
      Recovers (elseBlock? c) Block.unlined? o (close :: rest)

/-- A whole expression is read back if what follows cannot extend it. -/
theorem Phrase.ReadBack.expr {e : Expr} {ts : List Token}
    (h : (Phrase.level loosest e).ReadBack ts) {c : Cursor} {rest : List Token}
    (ahead : c.ahead = ts ++ rest) (stop : Stops (extenders levels) rest) :
    Recovers (Parse.expr c) Expr.unlined e rest := by
  obtain ⟨e', c', goesOn, ahead', eq⟩ :=
    h (Nat.le_refl _) c rest ahead (stop.mono (extenders_subset (by decide)))
  exact ⟨e', c', goesOn.gives (by rw [ahead']; exact stop), ahead', eq⟩

theorem unlined_of_sameWord {a b : Token} (h : a.SameWord b) : a.unlined = b.unlined := by
  cases a
  cases b
  obtain ⟨kind, lexeme⟩ := h
  simp only at kind lexeme
  subst kind lexeme
  rfl

theorem readBack_raised {l r : Expr} {op t : Token} {ts ts' : List Token} {line : Line}
    (word : op.SameWord t) (caret : t.kind = .caret) (ih : (Phrase.primary l).ReadBack ts)
    (ih' : (Phrase.power r).ReadBack ts') :
    (Phrase.power (.binary op l r line)).ReadBack (ts ++ t :: ts') := by
  intro c rest ahead stop
  obtain ⟨l', c₁, read, ahead₁, eq⟩ := ih c (t :: ts' ++ rest) (by simpa using ahead) (by
    simp [caret])
  obtain ⟨r', c₂, read', ahead₂, eq'⟩ := ih' (c₁.past t (ts' ++ rest)) rest rfl stop
  refine ⟨.binary t l' r' t.line, c₂, ?_, ahead₂,
    by simp [Expr.unlined, eq, eq', unlined_of_sameWord word]⟩
  have last : Stops [.caret] c₂.ahead := by
    rw [ahead₂]
    exact stop.mono (by simp [extenders])
  refine exponent_gives.mpr ⟨l', c₁, read, exponentRest_gives.mpr (.inl ?_)⟩
  exact ⟨t, _, r', c₂, ahead₁, caret, read', (exponentRest_stop last.before).mpr ⟨rfl, rfl⟩⟩

theorem readBack_sign {e : Expr} {op t : Token} {ts : List Token} {line : Line}
    (word : op.SameWord t) (sign : t.kind ∈ signs) (ih : (Phrase.signed e).ReadBack ts) :
    (Phrase.signed (.unary op e line)).ReadBack (t :: ts) := by
  intro c rest ahead stop
  obtain ⟨e', c', read, ahead', eq⟩ := ih (c.past t (ts ++ rest)) rest rfl stop
  refine ⟨.unary t e' t.line, c', ?_, ahead', by simp [Expr.unlined, eq, unlined_of_sameWord word]⟩
  exact unary_gives.mpr (.inl ⟨t, _, e', ahead, sign, read, rfl⟩)

/-- One more operation of a level: the loop of the level takes it up. -/
theorem readBack_operation {n : Nat} {l r e : Expr} {t : Token} {ts ts' : List Token}
    (rank : t.kind.rank = n + 3)
    (eq : ∀ l' r', l'.unlined = l.unlined → r'.unlined = r.unlined →
      (operation n t l' r').unlined = e.unlined)
    (ih : (Phrase.level (n + 1) l).ReadBack ts) (ih' : (Phrase.level n r).ReadBack ts') :
    (Phrase.level (n + 1) e).ReadBack (ts ++ t :: ts') := by
  intro bound c rest ahead stop
  have mem : t.kind ∈ operators n := (mem_operators_iff bound).mpr rank
  have stop₁ : Stops (extenders n) (t :: ts' ++ rest) :=
    stops_cons.mpr (not_mem_extenders_of_operator bound mem)
  obtain ⟨l', c₁, goesOn, ahead₁, eql⟩ := ih bound c (t :: ts' ++ rest) (by simpa using ahead) stop₁
  obtain ⟨r', c₂, goesOn', ahead₂, eqr⟩ := ih' (by omega) (c₁.past t (ts' ++ rest)) rest rfl
    (stop.mono (extenders_subset (by omega)))
  refine ⟨operation n t l' r', c₂, ?_, ahead₂, eq l' r' eql eqr⟩
  intro e' c' more
  have right := goesOn'.gives (by rw [ahead₂]; exact stop)
  exact goesOn e' c' (levelRest_gives.mpr (.inl ⟨t, _, r', c₂, ahead₁, mem, right, more⟩))

theorem readBack_tighter {n : Nat} {e : Expr} {ts : List Token}
    (ih : (Phrase.level n e).ReadBack ts) : (Phrase.level (n + 1) e).ReadBack ts := by
  intro bound c rest ahead stop
  obtain ⟨e', c', goesOn, ahead', eq⟩ :=
    ih (by omega) c rest ahead (stop.mono (extenders_subset (by omega)))
  refine ⟨e', c', ?_, ahead', eq⟩
  intro e'' c'' more
  exact level_succ_gives.mpr ⟨e', c', goesOn.gives (by rw [ahead']; exact stop), more⟩

/-! ### Reading back operands -/

theorem stops_of_kind {t : Token} {rest : List Token} {k : Kind} {kinds : List Kind}
    (kind : t.kind = k) (out : k ∉ kinds) : Stops kinds (t :: rest) := by
  rw [stops_cons, kind]
  exact out

theorem expect_past {c : Cursor} {t : Token} {rest : List Token} {k : Kind}
    (ahead : c.ahead = t :: rest) (kind : t.kind = k) : (c.expect k).Gives t (c.past t rest) :=
  Cursor.expect_gives.mpr ⟨rest, ahead, kind, rfl⟩

theorem readBack_base {e : Expr} {ts : List Token} (ih : (Phrase.primary e).ReadBack ts) :
    (Phrase.power e).ReadBack ts := by
  intro c rest ahead stop
  obtain ⟨e', c', read, ahead', eq⟩ := ih c rest ahead (stop.mono (by simp [extenders]))
  refine ⟨e', c', exponent_gives.mpr ⟨e', c', read, ?_⟩, ahead', eq⟩
  have last : Stops [.caret] c'.ahead := by
    rw [ahead']
    exact stop.mono (by simp [extenders])
  exact (exponentRest_stop last.before).mpr ⟨rfl, rfl⟩

theorem readBack_unsigned {e : Expr} {ts : List Token} (h : Derives same (.power e) ts)
    (ih : (Phrase.power e).ReadBack ts) : (Phrase.signed e).ReadBack ts := by
  intro c rest ahead stop
  obtain ⟨e', c', read, ahead', eq⟩ := ih c rest ahead stop
  have first : Stops signs c.ahead := by
    rw [ahead]
    exact (h.startsRight.append rest).stops (by decide)
  exact ⟨e', c', unary_gives.mpr (.inr ⟨first.before, read⟩), ahead', eq⟩

theorem readBack_operand {e : Expr} {ts : List Token} (ih : (Phrase.signed e).ReadBack ts) :
    (Phrase.level 0 e).ReadBack ts := by
  intro _ c rest ahead stop
  obtain ⟨e', c', read, ahead', eq⟩ := ih c rest ahead stop
  exact ⟨e', c', level_zero_gives.mpr read, ahead', eq⟩

/-- An operand is read back under the rule for expressions. -/
theorem readBack_level {e : Expr} {ts : List Token} (n : Nat) (h : Derives same (.primary e) ts)
    (ih : (Phrase.primary e).ReadBack ts) : (Phrase.level n e).ReadBack ts := by
  induction n with
  | zero => exact readBack_operand (readBack_unsigned h.base (readBack_base ih))
  | succ n ih => exact readBack_tighter ih

theorem readBack_group {e : Expr} {t close : Token} {ts : List Token} {line : Line}
    (kind : t.kind = .lparen) (closes : close.kind = .rparen)
    (ih : (Phrase.level loosest e).ReadBack ts) :
    (Phrase.primary (.group e line)).ReadBack (t :: ts ++ [close]) := by
  intro c rest ahead _
  have ahead₀ : c.ahead = t :: (ts ++ close :: rest) := by simpa using ahead
  obtain ⟨e', c', read, ahead', eq⟩ :=
    ih.expr (c.ahead_past t (ts ++ close :: rest)) (stops_of_kind closes (by decide))
  refine ⟨.group e' close.line, c'.past close rest, ?_, rfl, by simp [Expr.unlined, eq]⟩
  exact primary_gives.mpr (.group ahead₀ kind read ahead' closes)

theorem readBack_call {es : List Expr} {t paren close : Token} {ts : List Token} {line : Line}
    (kind : t.kind = .identifier) (opens : paren.kind = .lparen) (closes : close.kind = .rparen)
    (ih : (Phrase.args es).ReadBack ts) :
    (Phrase.primary (.call t.lexeme es line)).ReadBack (t :: paren :: ts ++ [close]) := by
  intro c rest ahead _
  have ahead₀ : c.ahead = t :: paren :: (ts ++ close :: rest) := by simpa using ahead
  obtain ⟨es', c', read, ahead', eq⟩ :=
    ih ((c.past t _).past paren (ts ++ close :: rest)) close rest rfl closes
  refine ⟨.call t.lexeme es' close.line, c'.past close rest, ?_, rfl, by simp [Expr.unlined, eq]⟩
  exact primary_gives.mpr (.call ahead₀ kind opens read ahead' closes)

/-! ### Reading back lists -/

theorem nextIs_of_ahead {c : Cursor} {t : Token} {rest : List Token} {k : Kind}
    (ahead : c.ahead = t :: rest) (kind : t.kind = k) : c.nextIs k = true :=
  Cursor.nextIs_iff.mpr ⟨t, rest, ahead, kind⟩

/-- One argument is read, up to the comma or the parenthesis after it. -/
theorem readBack_arg {e : Expr} {ts : List Token} (h : Derives same (.level loosest e) ts)
    (ih : (Phrase.level loosest e).ReadBack ts) {c : Cursor} {t : Token} {rest : List Token}
    {k : Kind} (kind : t.kind = k) (out : k ∉ extenders levels)
    (ahead : c.ahead = ts ++ t :: rest) :
    c.Before [.rparen] ∧ Recovers (level levels c) Expr.unlined e (t :: rest) := by
  refine ⟨?_, ih.expr ahead (stops_of_kind kind out)⟩
  have first : Stops [.rparen] c.ahead := by
    rw [ahead]
    exact (h.startsRight.append _).stops (by decide)
  exact first.before

theorem readBack_noArgs : (Phrase.args []).ReadBack [] := by
  intro c close rest ahead closes
  exact ⟨[], c, args_gives.mpr (.none (nextIs_of_ahead ahead closes)), ahead, rfl⟩

theorem readBack_lastArg {e : Expr} {ts : List Token} (h : Derives same (.level loosest e) ts)
    (ih : (Phrase.level loosest e).ReadBack ts) : (Phrase.args [e]).ReadBack ts := by
  intro c close rest ahead closes
  obtain ⟨before, e', c', read, ahead', eq⟩ := readBack_arg h ih closes (by decide) ahead
  have closed := nextIs_of_ahead ahead' closes
  exact ⟨[e'], c', args_gives.mpr (.last before read closed), ahead', by simp [Expr.unlinedAll, eq]⟩

theorem readBack_moreArgs {e : Expr} {es : List Expr} {comma : Token} {ts ts' : List Token}
    (h : Derives same (.level loosest e) ts) (kind : comma.kind = .comma)
    (ih : (Phrase.level loosest e).ReadBack ts) (ih' : (Phrase.args es).ReadBack ts') :
    (Phrase.args (e :: es)).ReadBack (ts ++ comma :: ts') := by
  intro c close rest ahead closes
  have ahead₀ : c.ahead = ts ++ comma :: (ts' ++ close :: rest) := by simpa using ahead
  obtain ⟨before, e', c₁, read, ahead₁, eq⟩ := readBack_arg h ih kind (by decide) ahead₀
  obtain ⟨es', c₂, read', ahead₂, eq'⟩ := ih' (c₁.past comma _) close rest rfl closes
  refine ⟨e' :: es', c₂, ?_, ahead₂, by simp [Expr.unlinedAll, eq, eq']⟩
  exact args_gives.mpr (.more before read (expect_past ahead₁ kind) read')

theorem readBack_noParams : (Phrase.params []).ReadBack [] := by
  intro count c close rest _ ahead closes
  exact ⟨[], c, params_gives.mpr (.none (nextIs_of_ahead ahead closes)), ahead, rfl⟩

theorem readBack_lastParam {t : Token} {line : Line} (kind : t.kind = .identifier) :
    (Phrase.params [⟨t.lexeme, line⟩]).ReadBack [t] := by
  intro count c close rest few ahead closes
  have closed := nextIs_of_ahead (c.ahead_past t (close :: rest)) closes
  refine ⟨[⟨t.lexeme, t.line⟩], _,
    params_gives.mpr (.last (expect_past ahead kind) few closed), rfl, rfl⟩

theorem readBack_moreParams {t comma : Token} {ps : List Param} {ts : List Token} {line : Line}
    (kind : t.kind = .identifier) (kind' : comma.kind = .comma)
    (ih : (Phrase.params ps).ReadBack ts) :
    (Phrase.params (⟨t.lexeme, line⟩ :: ps)).ReadBack (t :: comma :: ts) := by
  intro count c close rest few ahead closes
  rw [List.length_cons] at few
  obtain ⟨ps', c', read, ahead', eq⟩ :=
    ih (count + 1) ((c.past t _).past comma (ts ++ close :: rest)) close rest (by omega) rfl closes
  refine ⟨⟨t.lexeme, t.line⟩ :: ps', c', ?_, ahead', by simp [eq, Param.unlined]⟩
  have separated := expect_past (c.ahead_past t (comma :: (ts ++ close :: rest))) kind'
  exact params_gives.mpr (.more (expect_past ahead kind) (by omega) separated read)

theorem readBack_someStep {e : Expr} {t : Token} {ts : List Token} (kind : t.kind = .comma)
    (ih : (Phrase.level loosest e).ReadBack ts) : (Phrase.step (some e)).ReadBack (t :: ts) := by
  intro c rest ahead stop
  obtain ⟨e', c', read, ahead', eq⟩ :=
    ih.expr (c.ahead_past t (ts ++ rest)) (stop.mono (List.subset_cons_self _ _))
  refine ⟨some e', c', ?_, ahead', by simp [eq]⟩
  exact exprAfter?_gives.mpr (.inl ⟨t, _, e', expect_past ahead kind, read, rfl⟩)

/-! ### Reading back statements -/

/-- A word, then an expression. -/
theorem readBack_word {e : Expr} {t : Token} {ts : List Token} {c : Cursor} {k : Kind}
    (rest : List Token)
    (kind : t.kind = k) (ih : (Phrase.level loosest e).ReadBack ts)
    (ahead : c.ahead = t :: ts ++ rest)
    (stop : Stops (extenders levels) rest) :
    (c.expect k).Gives t (c.past t (ts ++ rest)) ∧
      Recovers (expr (c.past t (ts ++ rest))) Expr.unlined e rest :=
  ⟨expect_past ahead kind, ih.expr (c.ahead_past t (ts ++ rest)) stop⟩

theorem readBack_branch {test : Expr} {b : Block} {o : Option Block} {t t' close : Token}
    {ts ts₁ ts₂ : List Token} {line : Line} (kind : t.kind = .kwIf) (kind' : t'.kind = .kwThen)
    (closes : close.kind = .kwEnd) (h : Derives same (.otherwise o) ts₂)
    (ih : (Phrase.level loosest test).ReadBack ts) (ih₁ : (Phrase.block b).ReadBack ts₁)
    (ih₂ : (Phrase.otherwise o).ReadBack ts₂) :
    (Phrase.stmt (.branch test b o line)).ReadBack (t :: ts ++ t' :: ts₁ ++ ts₂ ++ [close]) := by
  intro named c rest ahead _
  simp only [Stmt.all, Bool.and_eq_true] at named
  obtain ⟨r₁, test', c₂, r₂, a₂, eq⟩ := readBack_word (c := c)
    (t' :: (ts₁ ++ (ts₂ ++ close :: rest))) kind ih (by simpa using ahead)
    (stops_of_kind kind' (by decide))
  obtain ⟨b', c₄, r₄, a₄, eq₁⟩ := ih₁ named.1.2 (c₂.past t' _) (ts₂ ++ close :: rest) rfl
    (h.starts_otherwise closes rest) (.inl (by simp))
  obtain ⟨o', c₅, r₅, a₅, eq₂⟩ := ih₂ named.2 c₄ close rest a₄ closes
  refine ⟨.branch test' b' o' close.line, c₅.past close rest, ?_, rfl, ?_⟩
  · exact stmt_gives.mpr
      (.branch r₁ r₂ (expect_past a₂ kind') r₄ r₅ (expect_past a₅ closes))
  · simp [Stmt.unlined, eq, eq₁, eq₂]

theorem endsStmts_cons {close : Token} {rest : List Token} (closes : close.kind = .kwEnd) :
    EndsStmts (close :: rest) :=
  .inr ⟨close, rest, rfl, by simp [closes]⟩

theorem readBack_loop {test : Expr} {b : Block} {t t' close : Token} {ts ts₁ : List Token}
    {line : Line} (kind : t.kind = .kwWhile) (kind' : t'.kind = .kwDo)
    (closes : close.kind = .kwEnd) (ih : (Phrase.level loosest test).ReadBack ts)
    (ih₁ : (Phrase.block b).ReadBack ts₁) :
    (Phrase.stmt (.loop test b line)).ReadBack (t :: ts ++ t' :: ts₁ ++ [close]) := by
  intro named c rest ahead _
  simp only [Stmt.all, Bool.and_eq_true] at named
  obtain ⟨r₁, test', c₂, r₂, a₂, eq⟩ := readBack_word (c := c)
    (t' :: (ts₁ ++ close :: rest)) kind ih (by simpa using ahead)
    (stops_of_kind kind' (by decide))
  obtain ⟨b', c₄, r₄, a₄, eq₁⟩ := ih₁ named.2 (c₂.past t' _) (close :: rest) rfl
    (endsStmts_cons closes) (.inl (by simp))
  refine ⟨.loop test' b' close.line, c₄.past close rest, ?_, rfl, by simp [Stmt.unlined, eq, eq₁]⟩
  exact stmt_gives.mpr (.loop r₁ r₂ (expect_past a₂ kind') r₄ (expect_past a₄ closes))

theorem readBack_count {start stop : Expr} {step : Option Expr} {b : Block}
    {t var t₂ t₃ t₅ close : Token} {ts₂ ts₃ ts₄ ts₅ : List Token} {varLine line : Line}
    (kind : t.kind = .kwFor) (named : var.kind = .identifier) (kind₂ : t₂.kind = .assign)
    (kind₃ : t₃.kind = .comma) (kind₅ : t₅.kind = .kwDo) (closes : close.kind = .kwEnd)
    (h : Derives same (.step step) ts₄) (ih₂ : (Phrase.level loosest start).ReadBack ts₂)
    (ih₃ : (Phrase.level loosest stop).ReadBack ts₃) (ih₄ : (Phrase.step step).ReadBack ts₄)
    (ih₅ : (Phrase.block b).ReadBack ts₅) :
    (Phrase.stmt (.count var.lexeme varLine start stop step b line)).ReadBack
      (t :: var :: t₂ :: ts₂ ++ t₃ :: ts₃ ++ ts₄ ++ t₅ :: ts₅ ++ [close]) := by
  intro all c rest ahead _
  simp only [Stmt.all, Bool.and_eq_true] at all
  obtain ⟨tail, tail_eq⟩ : ∃ tail, tail =
      ts₂ ++ t₃ :: (ts₃ ++ (ts₄ ++ t₅ :: (ts₅ ++ close :: rest))) := ⟨_, rfl⟩
  have a₀ : c.ahead = t :: var :: t₂ :: tail := by simpa [tail_eq] using ahead
  have r₁ := expect_past a₀ kind
  have r₂ := primary_gives.mpr (.name (c.ahead_past t (var :: t₂ :: tail)) named
    (Stops.before (stops_of_kind kind₂ (by decide))))
  obtain ⟨r₃, start', c₄, r₄, a₄, eq₂⟩ := readBack_word _ kind₂ ih₂
    (((c.past t _).ahead_past var (t₂ :: tail)).trans (by rw [tail_eq, List.cons_append]))
    (stops_of_kind kind₃ (by decide))
  have a₅ : Stops (extenders levels) (ts₄ ++ t₅ :: (ts₅ ++ close :: rest)) := by
    cases h with
    | noStep => exact stops_of_kind kind₅ (by decide)
    | someStep comma => exact stops_of_kind comma (by decide)
  obtain ⟨r₅, stop', c₆, r₆, a₆, eq₃⟩ := readBack_word _ kind₃ ih₃ a₄ a₅
  obtain ⟨step', c₇, r₇, a₇, eq₄⟩ := ih₄ c₆ _ a₆ (stops_of_kind kind₅ (by decide))
  obtain ⟨b', c₉, r₉, a₉, eq₅⟩ := ih₅ all.2 (c₇.past t₅ _) (close :: rest) rfl
    (endsStmts_cons closes) (.inl (by simp))
  refine ⟨.count var.lexeme var.line start' stop' step' b' close.line, c₉.past close rest, ?_, rfl,
    by simp [Stmt.unlined, eq₂, eq₃, eq₄, eq₅]⟩
  exact stmt_gives.mpr
    (.count r₁ r₂ r₃ r₄ r₅ r₆ r₇ (expect_past a₇ kind₅) r₉ (expect_past a₉ closes))

theorem readBack_func {ps : List Param} {b : Block} {t name t₂ t₃ close : Token}
    {ts ts₃ : List Token} {line : Line} (kind : t.kind = .kwFunc) (named : name.kind = .identifier)
    (kind₂ : t₂.kind = .lparen) (kind₃ : t₃.kind = .rparen) (closes : close.kind = .kwEnd)
    (few : ps.length ≤ 255) (ih : (Phrase.params ps).ReadBack ts)
    (ih₃ : (Phrase.block b).ReadBack ts₃) :
    (Phrase.stmt (.func name.lexeme ps b line)).ReadBack
      (t :: name :: t₂ :: ts ++ t₃ :: ts₃ ++ [close]) := by
  intro all c rest ahead _
  simp only [Stmt.all, Bool.and_eq_true] at all
  obtain ⟨tail, tail_eq⟩ : ∃ tail, tail = ts ++ t₃ :: (ts₃ ++ close :: rest) := ⟨_, rfl⟩
  have a₀ : c.ahead = t :: name :: t₂ :: tail := by simpa [tail_eq] using ahead
  have r₁ := expect_past a₀ kind
  have r₂ := expect_past (c.ahead_past t (name :: t₂ :: tail)) named
  have r₃ := expect_past ((c.past t (name :: t₂ :: tail)).ahead_past name (t₂ :: tail)) kind₂
  obtain ⟨ps', c₄, r₄, a₄, eq⟩ := ih 0 _ t₃ _ (by simpa [maxParams] using few)
    ((((c.past t _).past name _).ahead_past t₂ tail).trans tail_eq) kind₃
  obtain ⟨b', c₆, r₆, a₆, eq₃⟩ := ih₃ all.2 (c₄.past t₃ _) (close :: rest) rfl
    (endsStmts_cons closes) (.inl (by simp))
  refine ⟨.func name.lexeme ps' b' name.line, c₆.past close rest, ?_, rfl,
    by simp [Stmt.unlined, eq, eq₃]⟩
  exact stmt_gives.mpr (.func r₁ r₂ r₃ r₄ (expect_past a₄ kind₃) r₆ (expect_past a₆ closes))

theorem readBack_assignLocal {target e : Expr} {t t' : Token} {ts ts' : List Token} {line : Line}
    (kind : t.kind = .kwLocal) (kind' : t'.kind = .assign)
    (ih : (Phrase.level loosest target).ReadBack ts) (ih' : (Phrase.level loosest e).ReadBack ts') :
    (Phrase.stmt (.assignLocal target e line)).ReadBack (t :: ts ++ t' :: ts') := by
  intro _ c rest ahead stop
  obtain ⟨r₁, target', c₂, r₂, a₂, eq⟩ := readBack_word (c := c) (t' :: (ts' ++ rest)) kind ih
    (by simpa using ahead) (stops_of_kind kind' (by decide))
  obtain ⟨r₃, e', c₄, r₄, a₄, eq'⟩ := readBack_word rest kind' ih' a₂
    (stop.mono (List.subset_cons_self _ _))
  exact ⟨.assignLocal target' e' c₄.lastLine, c₄, stmt_gives.mpr (.assignLocal r₁ r₂ r₃ r₄), a₄,
    by simp [Stmt.unlined, eq, eq']⟩

/-- No word decides a statement that starts with a name. -/
theorem plain_of_identifier {c : Cursor} {ts rest : List Token} (h : Starts [.identifier] ts)
    (ahead : c.ahead = ts ++ rest) : c.ahead ≠ [] ∧ c.Before statementWords := by
  have starts : Starts [.identifier] c.ahead := ahead ▸ h.append rest
  refine ⟨?_, (starts.stops (by decide)).before⟩
  obtain ⟨t, rest', eq, -⟩ := starts
  simp [eq]

theorem readBack_assign {target e : Expr} {t' : Token} {ts ts' : List Token} {line : Line}
    (h : Derives same (.level loosest target) ts) (kind' : t'.kind = .assign)
    (ih : (Phrase.level loosest target).ReadBack ts) (ih' : (Phrase.level loosest e).ReadBack ts') :
    (Phrase.stmt (.assign target e line)).ReadBack (ts ++ t' :: ts') := by
  intro all c rest ahead stop
  have a₀ : c.ahead = ts ++ t' :: (ts' ++ rest) := by simpa using ahead
  obtain ⟨nonempty, plain⟩ :=
    plain_of_identifier (h.identifier_of_name (Stmt.holds_of_all all)) a₀
  obtain ⟨target', c₁, r₁, a₁, eq⟩ := ih.expr a₀ (stops_of_kind kind' (by decide))
  obtain ⟨r₂, e', c₃, r₃, a₃, eq'⟩ := readBack_word rest kind' ih' a₁
    (stop.mono (List.subset_cons_self _ _))
  exact ⟨.assign target' e' c₃.lastLine, c₃, stmt_gives.mpr (.assign nonempty plain r₁ r₂ r₃), a₃,
    by simp [Stmt.unlined, eq, eq']⟩

theorem readBack_callStmt {name : String} {es : List Expr} {ts : List Token} {line : Line}
    (h : Derives same (.primary (.call name es line)) ts)
    (ih : (Phrase.primary (.call name es line)).ReadBack ts) :
    (Phrase.stmt (.call name es line)).ReadBack ts := by
  intro _ c rest ahead stop
  have starts : Starts [.identifier] ts := by
    cases h with
    | call kind => exact ⟨_, _, rfl, by simp [kind]⟩
  obtain ⟨nonempty, plain⟩ := plain_of_identifier starts ahead
  obtain ⟨e', c', read, ahead', eq⟩ :=
    (readBack_level levels h ih).expr ahead (stop.mono (List.subset_cons_self _ _))
  -- Only a call is a call without its lines.
  cases e' with
  | call name' es' line' =>
    have last : Stops [.assign] c'.ahead := by
      rw [ahead']
      exact stop.mono (by simp [stmtExtenders])
    refine ⟨.call name' es' line', c', ?_, ahead', by simpa [Stmt.unlined, Expr.unlined] using eq⟩
    exact stmt_gives.mpr (.call nonempty plain read last.before)
  | _ => simp [Expr.unlined] at eq

theorem endsBlock_of_endsStmts {c : Cursor} (h : EndsStmts c.ahead) : endsBlock c = true := by
  rw [endsBlock_iff]
  rcases h with ended | ⟨t, rest, ahead, mem⟩
  · exact .inl ended
  · simp only [List.mem_cons, List.not_mem_nil, or_false] at mem
    exact .inr (mem.imp (nextIs_of_ahead ahead) (nextIs_of_ahead ahead))

theorem endsBlock_of_starts {c : Cursor} (h : Starts stmtStarts c.ahead) : endsBlock c = false := by
  have other : ∀ k, k ∉ stmtStarts → c.nextIs k = false := by
    intro k out
    have stop : Stops [k] c.ahead := h.stops fun k' mem => by
      rw [List.mem_singleton]
      rintro rfl
      exact out mem
    exact Cursor.nextIs_eq_false_iff.mpr stop.before
  rw [Bool.eq_false_iff, ne_eq, endsBlock_iff, other .kwElse (by decide), other .kwEnd (by decide)]
  obtain ⟨t, rest, ahead, -⟩ := h
  simp [ahead]

theorem readBack_moreStmts {s : Stmt} {ss : List Stmt} {ts ts' : List Token}
    (h : Derives same (.stmt s) ts) (h' : Derives same (.stmts ss) ts')
    (ih : (Phrase.stmt s).ReadBack ts) (ih' : (Phrase.stmts ss).ReadBack ts') :
    (Phrase.stmts (s :: ss)).ReadBack (ts ++ ts') := by
  intro all c rest ahead ends
  rw [Stmt.allOf, Bool.and_eq_true] at all
  have a₀ : c.ahead = ts ++ (ts' ++ rest) := by simpa using ahead
  -- Neither the next statement nor the end of the block extends this one.
  have stop : Stops stmtExtenders (ts' ++ rest) := by
    rcases h'.starts_stmts all.2 with rfl | starts
    · exact ends.stops (by decide)
    · exact (starts.append rest).stops (by decide)
  obtain ⟨s', c₁, read, a₁, eq⟩ := ih all.1 c _ a₀ stop
  obtain ⟨ss', c₂, read', a₂, eq'⟩ := ih' all.2 c₁ rest a₁ ends
  refine ⟨s' :: ss', c₂, ?_, a₂, by simp [Stmt.unlinedAll, eq, eq']⟩
  have goesOn : endsBlock c = false :=
    endsBlock_of_starts (a₀ ▸ (h.starts_stmt all.1).append _)
  exact stmts_gives.mpr (.inr ⟨goesOn, s', c₁, ss', read, read', rfl⟩)

theorem readBack_block {ss : List Stmt} {ts : List Token} {line : Line}
    (ih : (Phrase.stmts ss).ReadBack ts) : (Phrase.block (.mk ss line)).ReadBack ts := by
  intro all c rest ahead ends nonempty
  obtain ⟨ss', c', read, ahead', eq⟩ := ih all c rest ahead ends
  obtain ⟨⟨us, spans, -⟩, -⟩ := stmts_derives read
  have same : us = ts := by
    have both := spans.ahead
    rw [ahead, ahead'] at both
    exact (List.append_cancel_right both).symm
  have behind : c'.behind ≠ [] := by
    rw [spans.behind, same]
    rcases nonempty with h | h <;> simp [h]
  cases prev : c'.behind with
  | nil => exact absurd prev behind
  | cons t before =>
    refine ⟨.mk ss' t.line, c', ?_, ahead', by simp [Block.unlined, eq]⟩
    exact block_gives.mpr ⟨ss', t, read, by simp [Cursor.previous?, prev], rfl⟩

theorem readBack_noElse : (Phrase.otherwise none).ReadBack [] := by
  intro _ c close rest ahead closes
  have before : c.Before [.kwElse] :=
    (Cursor.before_of_ahead ahead).mpr (by simp [closes])
  exact ⟨none, c, elseBlock?_gives.mpr (.inr ⟨before, rfl, rfl⟩), ahead, rfl⟩

theorem readBack_orElse {b : Block} {t : Token} {ts : List Token} (kind : t.kind = .kwElse)
    (ih : (Phrase.block b).ReadBack ts) : (Phrase.otherwise (some b)).ReadBack (t :: ts) := by
  intro all c close rest ahead closes
  obtain ⟨b', c', read, ahead', eq⟩ := ih all (c.past t (ts ++ close :: rest)) (close :: rest) rfl
    (endsStmts_cons closes) (.inl (by simp))
  refine ⟨some b', c', ?_, ahead', by simp [Block.unlined?, eq]⟩
  exact elseBlock?_gives.mpr (.inl ⟨t, _, b', expect_past ahead kind, read, rfl⟩)

/-- Tokens that the grammar derives are read back. -/
theorem Derives.readBack {p : Phrase} {ts : List Token} (h : Derives Token.SameWord p ts) :
    p.ReadBack ts := by
  induction h with
  | integer kind read =>
    exact fun c rest ahead _ => ⟨_, _, primary_gives.mpr (.integer ahead kind read), rfl, rfl⟩
  | real kind read =>
    exact fun c rest ahead _ => ⟨_, _, primary_gives.mpr (.real ahead kind read), rfl, rfl⟩
  | yes kind => exact fun c rest ahead _ => ⟨_, _, primary_gives.mpr (.yes ahead kind), rfl, rfl⟩
  | no kind => exact fun c rest ahead _ => ⟨_, _, primary_gives.mpr (.no ahead kind), rfl, rfl⟩
  | text kind enclosed =>
    cases encloses_iff.mp enclosed
    exact fun c rest ahead _ => ⟨_, _, primary_gives.mpr (.text ahead kind), rfl, rfl⟩
  | group kind _ closes ih => exact readBack_group kind closes ih
  | name kind =>
    exact fun c rest ahead stop =>
      ⟨_, _, primary_gives.mpr (.name ahead kind (Stops.before stop)), rfl, rfl⟩
  | call kind opens _ closes ih => exact readBack_call kind opens closes ih
  | noArgs => exact readBack_noArgs
  | lastArg h ih => exact readBack_lastArg h ih
  | lastArgComma h kind ih => exact readBack_moreArgs h kind ih readBack_noArgs
  | moreArgs h kind _ ih ih' => exact readBack_moreArgs h kind ih ih'
  | base _ ih => exact readBack_base ih
  | raised _ word caret _ ih ih' => exact readBack_raised word caret ih ih'
  | unsigned h ih => exact readBack_unsigned h ih
  | sign word sign _ ih => exact readBack_sign word sign ih
  | operand _ ih => exact readBack_operand ih
  | tighter _ ih => exact readBack_tighter ih
  | binary tight _ word rank _ ih ih' =>
    refine readBack_operation rank (fun l' r' eq eq' => ?_) ih ih'
    simp [operation, tight, Expr.unlined, eq, eq', unlined_of_sameWord word]
  | logical loose _ word rank _ ih ih' =>
    refine readBack_operation rank (fun l' r' eq eq' => ?_) ih ih'
    simp [operation, Nat.not_lt.mpr loose, Expr.unlined, eq, eq', unlined_of_sameWord word]
  | print kind _ ih =>
    intro _ c rest ahead stop
    obtain ⟨r₁, e', c', r₂, a₂, eq⟩ :=
      readBack_word rest kind ih ahead (stop.mono (List.subset_cons_self _ _))
    exact ⟨_, c', stmt_gives.mpr (.print r₁ r₂), a₂, by simp [Stmt.unlined, eq]⟩
  | println kind _ ih =>
    intro _ c rest ahead stop
    obtain ⟨r₁, e', c', r₂, a₂, eq⟩ :=
      readBack_word rest kind ih ahead (stop.mono (List.subset_cons_self _ _))
    exact ⟨_, c', stmt_gives.mpr (.println r₁ r₂), a₂, by simp [Stmt.unlined, eq]⟩
  | branch kind _ kind' _ h closes ih ih₁ ih₂ =>
    exact readBack_branch kind kind' closes h ih ih₁ ih₂
  | noElse => exact readBack_noElse
  | orElse kind _ ih => exact readBack_orElse kind ih
  | loop kind _ kind' _ closes ih ih₁ => exact readBack_loop kind kind' closes ih ih₁
  | count kind named kind₂ _ kind₃ _ h kind₅ _ closes ih₂ ih₃ ih₄ ih₅ =>
    exact readBack_count kind named kind₂ kind₃ kind₅ closes h ih₂ ih₃ ih₄ ih₅
  | noStep =>
    intro c rest ahead stop
    have before : Stops [.comma] c.ahead := by
      rw [ahead]
      exact stop.mono (by simp)
    exact ⟨none, c, exprAfter?_gives.mpr (.inr ⟨before.before, rfl, rfl⟩), ahead, rfl⟩
  | someStep kind _ ih => exact readBack_someStep kind ih
  | func kind named kind₂ _ few kind₃ _ closes ih ih₃ =>
    exact readBack_func kind named kind₂ kind₃ closes few ih ih₃
  | noParams => exact readBack_noParams
  | lastParam kind => exact readBack_lastParam kind
  | lastParamComma kind kind' => exact readBack_moreParams kind kind' readBack_noParams
  | moreParams kind kind' _ ih => exact readBack_moreParams kind kind' ih
  | ret kind _ ih =>
    intro _ c rest ahead stop
    obtain ⟨r₁, e', c', r₂, a₂, eq⟩ :=
      readBack_word rest kind ih ahead (stop.mono (List.subset_cons_self _ _))
    exact ⟨_, c', stmt_gives.mpr (.ret r₁ r₂), a₂, by simp [Stmt.unlined, eq]⟩
  | assignLocal kind _ kind' _ ih ih' => exact readBack_assignLocal kind kind' ih ih'
  | assign h kind' _ ih ih' => exact readBack_assign h kind' ih ih'
  | callStmt h ih => exact readBack_callStmt h ih
  | noStmts =>
    intro _ c rest ahead ends
    have ended : endsBlock c = true := endsBlock_of_endsStmts (ahead ▸ ends)
    exact ⟨[], c, stmts_gives.mpr (.inl ⟨ended, rfl, rfl⟩), ahead, rfl⟩
  | moreStmts h h' ih ih' => exact readBack_moreStmts h h' ih ih'
  | block _ ih => exact readBack_block ih

/-- Every way to write a program that is not empty and assigns to names only is read back as that
program, up to lines, and read to its end. -/
theorem program_of_derives {b : Block} {tokens : List Token} (nonempty : b.stmts ≠ [])
    (named : b.all Stmt.assignsName = true) (written : Derives Token.SameWord (.block b) tokens) :
    ∃ b' c shorter, program tokens = .ok b' c shorter ∧ b'.unlined = b.unlined ∧
      c.position = tokens.length := by
  have starts : tokens ≠ [] := by
    cases written with
    | block written =>
      cases written with
      | noStmts => exact absurd rfl nonempty
      | moreStmts first =>
        rw [Block.all, Stmt.allOf, Bool.and_eq_true] at named
        obtain ⟨t, rest, rfl, -⟩ := first.starts_stmt named.1
        simp
  have ahead : (Cursor.ofList tokens).ahead = tokens ++ [] := by simp [Cursor.ofList]
  obtain ⟨b', c, ⟨shorter, parsed⟩, ended, eq⟩ :=
    written.readBack named (Cursor.ofList tokens) [] ahead (.inl rfl) (.inr starts)
  obtain ⟨ts, spans, -⟩ := block_derives ⟨shorter, parsed⟩
  exact ⟨b', c, shorter, parsed, eq, position_of_ended spans ended⟩

/-- A way to write `while a do x := -a ^ b f(x) end` on two lines. -/
def loopOverTwoLines : List Token :=
  [⟨.kwWhile, "while", 1⟩, ⟨.identifier, "a", 1⟩, ⟨.kwDo, "do", 1⟩, ⟨.identifier, "x", 2⟩,
    ⟨.assign, ":=", 2⟩, ⟨.minus, "-", 2⟩, ⟨.identifier, "a", 2⟩, ⟨.caret, "^", 2⟩,
    ⟨.identifier, "b", 2⟩, ⟨.identifier, "f", 2⟩, ⟨.lparen, "(", 2⟩, ⟨.identifier, "x", 2⟩,
    ⟨.rparen, ")", 2⟩, ⟨.kwEnd, "end", 2⟩]

/-- The tree that `loopOverTwoLines` writes. -/
def loopTree : Block :=
  .mk [.loop (.name "a" 0)
    (.mk [.assign (.name "x" 0)
        (.unary ⟨.minus, "-", 0⟩ (.binary ⟨.caret, "^", 0⟩ (.name "a" 0) (.name "b" 0) 0) 0) 0,
      .call "f" [.name "x" 0] 0] 0) 0] 0

/-- Two statements stand side by side in the loop, and both are read back. -/
theorem loopTree_of_derives :
    loopTree.stmts ≠ [] ∧ loopTree.all Stmt.assignsName = true ∧
      Derives Token.SameWord (.block loopTree) loopOverTwoLines ∧
      ∃ b' c shorter, program loopOverTwoLines = .ok b' c shorter ∧
        b'.unlined = loopTree.unlined ∧ c.position = 14 := by
  have word (k : Kind) (text : String) (line : Line) : (Token.mk k text line).kind = k := rfl
  have name (x : String) (line : Line) : Derives Token.SameWord (.primary (.name x 0)) _ :=
    .name (word .identifier x line)
  have expr {e ts} (h : Derives Token.SameWord (.signed e) ts) :
      Derives Token.SameWord (.level loosest e) ts :=
    h.operand.tighter.tighter.tighter.tighter.tighter.tighter.tighter
  have power : Derives Token.SameWord (.power (.binary ⟨.caret, "^", 0⟩ _ _ 0)) _ :=
    .raised (t := ⟨.caret, "^", 2⟩) (name "a" 2) ⟨rfl, rfl⟩ rfl (name "b" 2).base
  have value : Derives Token.SameWord (.signed (.unary ⟨.minus, "-", 0⟩ _ 0)) _ :=
    .sign (t := ⟨.minus, "-", 2⟩) ⟨rfl, rfl⟩ (by decide) power.unsigned
  have assigned : Derives Token.SameWord (.stmt (.assign _ _ 0)) _ :=
    .assign (expr (name "x" 2).base.unsigned) (word .assign ":=" 2) (expr value)
  have called : Derives Token.SameWord (.primary (.call _ _ 0)) _ :=
    .call (word .identifier "f" 2) (word .lparen "(" 2)
      (.lastArg (expr (name "x" 2).base.unsigned)) (word .rparen ")" 2)
  have body : Derives Token.SameWord (.stmts _) _ :=
    .moreStmts assigned (.moreStmts (.callStmt called) .noStmts)
  have written : Derives Token.SameWord (.block loopTree) loopOverTwoLines :=
    .block (.moreStmts (.loop (word .kwWhile "while" 1) (expr (name "a" 1).base.unsigned)
      (word .kwDo "do" 1) (.block body) (word .kwEnd "end" 2)) .noStmts)
  exact ⟨by decide, by decide, written, program_of_derives (by decide) (by decide) written⟩

end ScriptLang.Parse
