import ScriptLang.Proofs.Token.Cuts

/-!
Scanning line after line.

A text that can be scanned to its end is scanned in the same way when a line break and more text
follow it (`scanAll_followed`), and what follows is scanned as if it stood alone, only further down
(`scanAll_below`). So the tokens of two texts with a line break between them are those of the first
and then those of the second, and an error in the second one stays the same error
(`scanAll_append_line`).
-/

namespace ScriptLang

/-- A token further down by some lines. -/
def Token.down (n : Line) (t : Token) : Token := { t with line := n + t.line }

/-- An error further down by some lines. -/
def ScanError.down (n : Line) : ScanError → ScanError
  | .unexpected c line => .unexpected c (n + line)
  | .unterminated line => .unterminated (n + line)
  | .pastEnd => .pastEnd

namespace Scanner

variable {s s' t first : Scanner} {c : Char} {rest more : List Char} {p : Char → Bool}

/-- The scanner `t` is where `s` is, in a text that goes on below what `first` has scanned. -/
structure Below (first s t : Scanner) : Prop where
  rest : t.rest = s.rest
  line : t.line = first.line + s.line
  tokens : t.tokens = first.tokens ++ s.tokens.map (Token.down first.line)

/-! ### Further down -/

/-- The scanner `s` below what `first` has scanned. -/
def below (first s : Scanner) : Scanner :=
  { s with
    passed := first.passed
    line := first.line + s.line
    tokens := first.tokens ++ s.tokens.map (Token.down first.line) }

/-- What a step gives below what `first` has scanned. -/
def belowResult (first : Scanner) :
    EStateM.Result ScanError Scanner Unit → EStateM.Result ScanError Scanner Unit
  | .ok _ s => .ok () (first.below s)
  | .error e s => .error (e.down first.line) (first.below s)

theorem skipWhile_below (p : Char → Bool) (first s : Scanner) :
    (first.below s).skipWhile p = first.below (s.skipWhile p) := rfl

theorem skip_below (first s : Scanner) : (first.below s).skip = first.below s.skip := by
  cases next : s.rest <;> simp [skip, below, next]

theorem push_below (k : Kind) (first s : Scanner) :
    (first.below s).push k = first.below (s.push k) := by
  simp [push, below, lexeme, Token.down]

theorem accept_below (d : Char) (first s : Scanner) :
    (first.below s).accept d = ((s.accept d).1, first.below (s.accept d).2) := by
  cases next : s.rest with
  | nil => simp [accept, acceptIf, below, next]
  | cons e rest => by_cases same : e = d <;> simp [accept, acceptIf, below, next, same]

theorem minus_below (first s : Scanner) : (first.below s).minus = first.below s.minus := by
  unfold minus
  rw [accept_below]
  rcases s.accept '-' with ⟨accepted, s₁⟩
  cases accepted
  · exact push_below .minus first s₁
  · rfl

theorem word_below (first s : Scanner) : word (first.below s) = belowResult first (word s) := by
  unfold word
  dsimp only
  rw [skipWhile_below, push_below]
  rfl

theorem string_below (c : Char) (first s : Scanner) :
    string c (first.below s) = belowResult first (string c s) := by
  unfold string stringUntil
  dsimp only
  rw [skipWhile_below]
  generalize s.skipWhile (fun d => !(d == c)) = s₁
  cases next : s₁.rest with
  | nil =>
    have next' : (first.below s₁).rest = [] := next
    simp only [next']
    rfl
  | cons d rest =>
    have next' : (first.below s₁).rest = d :: rest := next
    simp only [next']
    rw [skip_below, push_below]
    rfl

theorem number_below (first s : Scanner) :
    number (first.below s) = belowResult first (number s) := by
  unfold number
  dsimp only
  rw [skipWhile_below]
  generalize s.skipWhile Text.isDigit = s₁
  rw [show (first.below s₁).rest = s₁.rest from rfl]
  split
  · rfl
  · split
    · rw [skip_below, skipWhile_below, push_below]
      rfl
    · rw [push_below]
      rfl
  · rw [push_below]
    rfl

theorem item_below (c : Char) (first s : Scanner) :
    item c (first.below s) = belowResult first (item c s) := by
  obtain ⟨act, handles, same⟩ := exists_handles c
  rw [same, same]
  cases handles with
  | newline => simp [belowResult, below, Int.add_assoc]
  | blank => rfl
  | minus => exact congrArg (EStateM.Result.ok ()) (minus_below first s)
  | string => exact string_below c first s
  | @single k => exact congrArg (EStateM.Result.ok ()) (push_below k first s)
  | withEquals =>
    dsimp only
    rw [accept_below, push_below]
    rfl
  | number => exact number_below first s
  | word => exact word_below first s
  | unexpected => rfl

/-- A scanner below another one ends as it would end alone. -/
inductive EndsBelow (first : Scanner) : EStateM.Result ScanError Scanner Unit →
    EStateM.Result ScanError Scanner Unit → Prop where
  | ok {s t : Scanner} : Below first s t → EndsBelow first (.ok () s) (.ok () t)
  | error {e : ScanError} {s t : Scanner} : Below first s t →
      EndsBelow first (.error e s) (.error (e.down first.line) t)

theorem scanAll_of_end (ended : s.rest = []) : s.scanAll = .ok () s := by
  rw [scanAll]
  split
  · rfl
  · rename_i next
    rw [ended] at next
    cases next

/-- The first step of a scan. -/
theorem scanAll_of_next (next : s.rest = c :: rest) :
    s.scanAll = match item c { s.mark with pending := [c], rest } with
      | .ok _ s₁ => s₁.scanAll
      | .error e s₁ => .error e s₁ := by
  rw [scanAll]
  split
  · rename_i ended
    rw [next] at ended
    cases ended
  · rename_i c' rest' next'
    rw [next] at next'
    cases next'
    split <;> rename_i result <;> rw [result]

/-- A step of a scanner below another one is the step that it would make alone. -/
theorem Below.item (h : Below first s t) (c : Char) (rest : List Char) :
    ∃ first' : Scanner, first'.line = first.line ∧ first'.tokens = first.tokens ∧
      item c { t.mark with pending := [c], rest } =
        belowResult first' (item c { s.mark with pending := [c], rest }) := by
  refine ⟨{ first with passed := t.mark.passed }, rfl, rfl, ?_⟩
  rw [← item_below]
  simp [below, mark, h.line, h.tokens]

theorem scanAll_below (h : Below first s t) : EndsBelow first s.scanAll t.scanAll := by
  fun_induction scanAll s generalizing t with
  | case1 s ended =>
    rw [scanAll_of_end (h.rest.trans ended)]
    exact .ok h
  | case2 s c rest next e s₁ failed =>
    obtain ⟨first', line, tokens, step⟩ := h.item c rest
    rw [scanAll_of_next (h.rest.trans next), step, failed, belowResult, line]
    refine .error ⟨rfl, ?_, ?_⟩ <;> simp [below, line, tokens]
  | case3 s c rest next s₁ read ih =>
    obtain ⟨first', line, tokens, step⟩ := h.item c rest
    rw [scanAll_of_next (h.rest.trans next), step, read, belowResult]
    refine ih ⟨rfl, ?_, ?_⟩ <;> simp [below, line, tokens]

/-! ### In front of a line break -/

/-- The scanner with a line break and more text behind its own. -/
def followed (more : List Char) (s : Scanner) : Scanner :=
  { s with rest := s.rest ++ '\n' :: more }

/-- What stops at a line break or before it stops at the same place. -/
theorem cut_followed {cs : List Char} (stops : p '\n' = false ∨ cs.dropWhile p ≠ [])
    (more : List Char) : (cs ++ '\n' :: more).takeWhile p = cs.takeWhile p ∧
      (cs ++ '\n' :: more).dropWhile p = cs.dropWhile p ++ '\n' :: more := by
  induction cs with
  | nil =>
    rcases stops with fail | inside
    · simp [fail]
    · exact absurd rfl inside
  | cons d cs ih =>
    by_cases pass : p d = true
    · rw [List.dropWhile_cons_of_pos pass] at stops
      simp [pass, ih stops]
    · simp [pass]

theorem skipWhile_followed (stops : p '\n' = false ∨ s.rest.dropWhile p ≠ []) (more : List Char) :
    (s.followed more).skipWhile p = (s.skipWhile p).followed more := by
  simp [skipWhile, followed, cut_followed stops more]

theorem skip_followed (nonempty : s.rest ≠ []) (more : List Char) :
    (s.followed more).skip = s.skip.followed more := by
  cases next : s.rest with
  | nil => exact absurd next nonempty
  | cons c rest => simp [skip, followed, next]

theorem accept_followed {d : Char} (other : d ≠ '\n') (s : Scanner) (more : List Char) :
    (s.followed more).accept d = ((s.accept d).1, (s.accept d).2.followed more) := by
  cases next : s.rest with
  | nil => simp [accept, acceptIf, followed, next, other.symm]
  | cons e rest => by_cases same : e = d <;> simp [accept, acceptIf, followed, next, same]

theorem minus_followed (s : Scanner) (more : List Char) :
    (s.followed more).minus = s.minus.followed more := by
  unfold minus
  rw [accept_followed (by decide)]
  rcases s.accept '-' with ⟨accepted, s₁⟩
  cases accepted
  · rfl
  · exact skipWhile_followed (.inl (by decide)) more

theorem word_followed (h : word s = .ok () s') (more : List Char) :
    word (s.followed more) = .ok () (s'.followed more) := by
  unfold word at h ⊢
  dsimp only at h ⊢
  cases h
  rw [skipWhile_followed (.inl (by decide))]
  rfl

theorem string_followed (h : string c s = .ok () s') (more : List Char) :
    string c (s.followed more) = .ok () (s'.followed more) := by
  unfold string stringUntil at h ⊢
  dsimp only at h ⊢
  split at h
  · cases h
  · rename_i closed
    cases h
    rw [skipWhile_followed (.inr closed)]
    split
    · rename_i none
      simp [followed] at none
    · rw [skip_followed closed]
      rfl

theorem number_followed (h : number s = .ok () s') (more : List Char) :
    number (s.followed more) = .ok () (s'.followed more) := by
  unfold number at h ⊢
  dsimp only at h ⊢
  rw [skipWhile_followed (.inl (by decide))]
  generalize s.skipWhile Text.isDigit = s₁ at h ⊢
  split at h
  · cases h
  · rename_i d rest next
    have next' : (s₁.followed more).rest = '.' :: d :: (rest ++ '\n' :: more) := by
      simp [followed, next]
    split at h
    · rename_i digit
      cases h
      simp only [next', if_pos digit]
      rw [skip_followed (by simp [next]), skipWhile_followed (.inl (by decide))]
      rfl
    · rename_i other
      cases h
      simp only [next', if_neg other]
      rfl
  · rename_i alone other
    cases h
    have point : (s₁.followed more).rest.head? ≠ some '.' := by
      cases next : s₁.rest with
      | nil => simp [followed, next]
      | cons d rest =>
        simp only [followed, next, List.cons_append, List.head?_cons]
        rintro ⟨rfl⟩
        cases rest with
        | nil => exact alone next
        | cons e rest => exact other e rest next
    split
    · rename_i next
      exact absurd (by rw [next]; rfl) point
    · rename_i next
      exact absurd (by rw [next]; rfl) point
    · rfl

theorem item_followed (h : item c s = .ok () s') (more : List Char) :
    item c (s.followed more) = .ok () (s'.followed more) := by
  obtain ⟨act, handles, same⟩ := exists_handles c
  rw [same] at h ⊢
  cases handles with
  | newline | blank | single =>
    cases h
    rfl
  | minus =>
    cases h
    exact congrArg (EStateM.Result.ok ()) (minus_followed s more)
  | string => exact string_followed h more
  | withEquals =>
    cases h
    dsimp only
    rw [accept_followed (by decide)]
    rfl
  | number => exact number_followed h more
  | word => exact word_followed h more
  | unexpected => cases h

/-- A text that can be scanned is scanned in the same way in front of a line break. -/
theorem scanAll_followed (h : s.scanAll = .ok () s') (more : List Char) :
    s'.rest = [] ∧ (s.followed more).scanAll = (s'.followed more).scanAll := by
  fun_induction scanAll s with
  | case1 s ended =>
    cases h
    exact ⟨ended, rfl⟩
  | case2 => cases h
  | case3 s c rest next s₁ read ih =>
    obtain ⟨ended, scanned⟩ := ih h
    have next' : (s.followed more).rest = c :: (rest ++ '\n' :: more) := by
      simp [followed, next]
    have step := item_followed read more
    refine ⟨ended, ?_⟩
    rw [scanAll_of_next next', ← scanned]
    change (match item c (followed more { s.mark with pending := [c], rest }) with
      | .ok _ s₂ => s₂.scanAll
      | .error e s₂ => .error e s₂) = _
    rw [step]

/-- The tokens of two texts with a line break between them are those of the first and then those of
the second, further down by the lines of the first. An error in the second text stays the same
error, further down. -/
theorem scanAll_append_line {a b : String} {s : Scanner} (h : (ofString a).scanAll = .ok () s) :
    (∀ s', (ofString b).scanAll = .ok () s' →
      ∃ t, (ofString (a ++ "\n" ++ b)).scanAll = .ok () t ∧ Below s s' t) ∧
    (∀ e s', (ofString b).scanAll = .error e s' →
      ∃ t, (ofString (a ++ "\n" ++ b)).scanAll = .error (e.down s.line) t ∧ Below s s' t) := by
  obtain ⟨t, whole, below⟩ : ∃ t, (ofString (a ++ "\n" ++ b)).scanAll = t.scanAll ∧
      Below s (ofString b) t := by
    have source : ofString (a ++ "\n" ++ b) = (ofString a).followed b.toList := by
      simp [ofString, followed]
    obtain ⟨ended, scanned⟩ := scanAll_followed h b.toList
    have next : (s.followed b.toList).rest = '\n' :: b.toList := by simp [followed, ended]
    rw [source, scanned, scanAll_of_next next]
    exact ⟨_, rfl, rfl, rfl, by simp [ofString, mark, followed]⟩
  have ends := scanAll_below below
  rw [whole]
  generalize t.scanAll = r at ends ⊢
  constructor
  · intro s' scanned
    rw [scanned] at ends
    cases ends with
    | ok below => exact ⟨_, rfl, below⟩
  · intro e s' failed
    rw [failed] at ends
    cases ends with
    | error below => exact ⟨_, rfl, below⟩

/-- A comment at the end of the first line does not reach the second, where a string is closed or
not. -/
theorem comment_above_string :
    (∃ t, (ofString ("x -- y" ++ "\n" ++ "z ''")).scanAll = .ok () t ∧
      t.tokens = #[⟨.identifier, "x", 1⟩, ⟨.identifier, "z", 2⟩, ⟨.string, "''", 2⟩]) ∧
    ∃ t, (ofString ("x -- y" ++ "\n" ++ "z '")).scanAll = .error (.unterminated 2) t ∧
      t.tokens = #[⟨.identifier, "x", 1⟩, ⟨.identifier, "z", 2⟩] := by
  obtain ⟨s, first, line, tokens⟩ : ∃ s, (ofString "x -- y").scanAll = .ok () s ∧ s.line = 1 ∧
      s.tokens = #[⟨.identifier, "x", 1⟩] := ⟨_, by cbv, rfl, rfl⟩
  refine ⟨?_, ?_⟩
  · obtain ⟨s', second, tokens'⟩ : ∃ s, (ofString "z ''").scanAll = .ok () s ∧
        s.tokens = #[⟨.identifier, "z", 1⟩, ⟨.string, "''", 1⟩] := ⟨_, by cbv, rfl⟩
    obtain ⟨t, whole, below⟩ := (scanAll_append_line first).1 s' second
    refine ⟨t, whole, ?_⟩
    simp [below.tokens, tokens, tokens', line, Token.down]
  · obtain ⟨s', second, tokens'⟩ : ∃ s, (ofString "z '").scanAll = .error (.unterminated 1) s ∧
        s.tokens = #[⟨.identifier, "z", 1⟩] := ⟨_, by cbv, rfl⟩
    obtain ⟨t, whole, below⟩ := (scanAll_append_line first).2 _ s' second
    rw [line] at whole
    refine ⟨t, whole, ?_⟩
    simp [below.tokens, tokens, tokens', line, Token.down]

end Scanner

end ScriptLang
