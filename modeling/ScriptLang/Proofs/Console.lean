import Mathlib
import ScriptLang.Console
import ScriptLang.Proofs.Parse.Failures

/-!
How long a session lasts.

A line for a program is never answered by a value. Either the scanner or the parser refuses it with
a report (`Refused`), or there is an error message for it (`fault_of_not_refused`). A session goes
on after an error message and ends at the first report. So it comes to the line that asks for its
end exactly if no line before that is refused with a report.
-/

namespace ScriptLang

/-- What is not reported is a fault. -/
theorem Parse.Unreported.fault {e : ParseError} {c : Cursor} (h : Unreported e c) :
    ∃ f, e.failure = .fault f := by
  cases h <;> exact ⟨_, rfl⟩

namespace Console

variable {line : String} {tokens : List Token} {fuel : Nat} {printed : String}

/-! ### Lines -/

/-- The line is refused with a report. -/
inductive Refused (line : String) : Report → Prop where
  | scanning {e r} : tokenize line = .error e → e.failure = .report r → Refused line r
  | parsing {tokens e c r} : tokenize line = .ok tokens → Parse.program tokens = .error e c →
      e.failure = .report r → Refused line r

theorem readProgram_of_scan_error {e : ScanError} (scanned : tokenize line = .error e) :
    readProgram line = e.failure := by
  rw [readProgram, scanned]

theorem readProgram_of_parsed (scanned : tokenize line = .ok tokens) :
    readProgram line =
      match Parse.program tokens with
      | .ok _ _ _ => .fault (.type .missingScope)
      | .error e _ => e.failure := by
  rw [readProgram, scanned]
  cases read : Parse.program tokens with
  | ok b c shorter => simp only [read, Parsed.toExcept]
  | error e c => simp only [read, Parsed.toExcept]

/-- The report about a line, if there is one, is what ends the session. -/
theorem Refused.readProgram {r : Report} (h : Refused line r) : readProgram line = .report r := by
  cases h with
  | scanning scanned reported => rw [readProgram_of_scan_error scanned, reported]
  | parsing scanned read reported => simp only [readProgram_of_parsed scanned, read, reported]

/-- For a line that is not refused there is an error message. -/
theorem fault_of_not_refused (accepted : ∀ r, ¬ Refused line r) :
    ∃ f, Console.readProgram line = .fault f := by
  cases scanned : tokenize line with
  | error e =>
    rw [readProgram_of_scan_error scanned]
    cases e with
    | unexpected | unterminated => exact absurd (.scanning scanned rfl) (accepted _)
    | pastEnd => exact ⟨_, rfl⟩
  | ok tokens =>
    rw [readProgram_of_parsed scanned]
    have accounted := Parse.program_accounted tokens
    cases read : Parse.program tokens with
    | ok b c shorter => exact ⟨_, rfl⟩
    | error e c =>
      rw [read] at accounted
      obtain ⟨-, ⟨number, text, reported⟩ | unreported⟩ := accounted
      · exact absurd (.parsing scanned read reported) (accepted _)
      · exact unreported.fault

/-! ### Sessions -/

/-- What a session prints for lines that do not end it. -/
def answers (lines : List String) : String :=
  String.join (lines.map fun line => prompt ++ errorText (Console.readProgram line))

/-- A session goes on after lines that are not refused. -/
theorem sessionFrom_append {before : List String} (stay : ∀ line ∈ before, isExit line = false)
    (accepted : ∀ line ∈ before, ∀ r, ¬ Refused line r) (rest : List String) :
    sessionFrom fuel .programs printed (before ++ rest) =
      sessionFrom fuel .programs (printed ++ answers before) rest := by
  induction before generalizing printed with
  | nil => simp [answers]
  | cons line before ih =>
    obtain ⟨stays, stay⟩ := List.forall_mem_cons.mp stay
    obtain ⟨accepts, accepted⟩ := List.forall_mem_cons.mp accepted
    obtain ⟨f, fault⟩ := fault_of_not_refused accepts
    have goesOn : sessionFrom fuel .programs printed (line :: (before ++ rest)) =
        sessionFrom fuel .programs (printed ++ prompt ++ errorText (.fault f))
          (before ++ rest) := by
      simp [sessionFrom, stays, answer, fault, isFatal]
    rw [List.cons_append, goesOn, ih stay accepted]
    simp [answers, fault, String.append_assoc]

/-- A line that is refused ends a session. -/
theorem sessionFrom_refused {r : Report} (stays : isExit line = false) (refused : Refused line r)
    (rest : List String) :
    sessionFrom fuel .programs printed (line :: rest) =
      ⟨printed ++ prompt ++ r.printed, .failure (.report r), rest.length⟩ := by
  simp [sessionFrom, stays, answer, refused.readProgram, isFatal, Failure.printed]

/-- A session that is asked to end after some lines either reads them all, answers each with an
error message and ends as it is asked to, or it ends at the first line that is refused with a
report; and the first is the case exactly if there is no such line. -/
theorem session_ends_at_first_report (fuel : Nat) {lines : List String} {last : String}
    (stay : ∀ line ∈ lines, isExit line = false) (exits : isExit last = true) :
    (∀ line ∈ lines, ∀ r, ¬ Refused line r) ∧
        session fuel .programs (lines ++ [last]) =
          ⟨welcome ++ answers lines ++ prompt ++ farewell, .exit, 0⟩ ∨
      ∃ before line after r, lines = before ++ line :: after ∧
        (∀ line ∈ before, ∀ r, ¬ Refused line r) ∧ Refused line r ∧
        session fuel .programs (lines ++ [last]) =
          ⟨welcome ++ answers before ++ prompt ++ r.printed, .failure (.report r),
            after.length + 1⟩ := by
  classical
  rw [session]
  cases first : lines.find? fun line => decide (∃ r, Refused line r) with
  | none =>
    have accepted : ∀ line ∈ lines, ∀ r, ¬ Refused line r := by
      simpa using first
    refine .inl ⟨accepted, ?_⟩
    rw [sessionFrom_append stay accepted]
    simp [sessionFrom, exits]
  | some line =>
    obtain ⟨refused, before, after, rfl, accepted⟩ := List.find?_eq_some_iff_append.mp first
    obtain ⟨r, refused⟩ := of_decide_eq_true refused
    have accepted : ∀ line ∈ before, ∀ r, ¬ Refused line r := by
      simpa using accepted
    obtain ⟨stay, stays, -⟩ := List.forall_mem_append.mp stay |>.imp_right
      List.forall_mem_cons.mp
    refine .inr ⟨before, line, after, r, rfl, accepted, refused, ?_⟩
    rw [List.append_assoc, sessionFrom_append stay accepted, List.cons_append,
      sessionFrom_refused stays refused]
    simp

/-- A line that is no call leaves the session going, and a line that breaks off ends it. -/
theorem brokenOff_ends_session :
    (∀ line ∈ ["x", "println x +"], isExit line = false) ∧ isExit "Exit" = true ∧
      ∃ before line after r, ["x", "println x +"] = before ++ line :: after ∧
        (∀ line ∈ before, ∀ r, ¬ Refused line r) ∧ Refused line r ∧
        session 0 .programs ["x", "println x +", "Exit"] =
          ⟨welcome ++ answers before ++ prompt ++ r.printed, .failure (.report r),
            after.length + 1⟩ := by
  have stay : ∀ line ∈ ["x", "println x +"], isExit line = false := by
    simp only [List.forall_mem_cons, List.not_mem_nil, false_implies, implies_true, and_true]
    constructor <;> cbv
  have exits : isExit "Exit" = true := by cbv
  have unread : (session 0 .programs ["x", "println x +", "Exit"]).unread = 1 := by cbv
  refine ⟨stay, exits, ?_⟩
  rcases session_ends_at_first_report 0 stay exits with ⟨-, ends⟩ | ends
  · rw [List.cons_append, List.cons_append, List.nil_append] at ends
    rw [ends] at unread
    cases unread
  · exact ends

/-- A session that a character of no token ends before its last line is read. -/
theorem unexpected_ends_session :
    session 0 .programs ["@", "exit"] =
      ⟨welcome ++ prompt ++
          (Report.atLine 1 "Error at '@': Unexpected character.").printed,
        .failure (.report (.atLine 1 "Error at '@': Unexpected character.")), 1⟩ := by
  cbv

end Console

end ScriptLang
