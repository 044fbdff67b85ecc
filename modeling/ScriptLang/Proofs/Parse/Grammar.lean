import ScriptLang.Parse.Stmt
import ScriptLang.Proofs.Tree.Shape

/-!
The grammar, as a relation between trees and the tokens they are written with.

`Derives same p ts`: the tokens `ts` are a way to write the phrase `p`. A phrase is a tree together
with the rule of the grammar it stands under, so the relation says both which tokens a tree yields
and how operators nest. The operator that a node keeps and the token it is written with are related
by `same`: equality for the tokens that a tree was read from, `Token.SameWord` for any way to write
it. One comma may follow the last item of a list of arguments or parameters.

Operators, signs and quotes have tables of their own here (`Kind.rank`, `signs`, `Encloses`); the
tables of the parser are the same (`mem_operators_iff`, `isSign_iff`, `encloses_iff`). `Expr.rank`
and `Expr.nested` state the order of operators without the grammar.
-/

namespace ScriptLang

/-- The same word, perhaps on another line. -/
def Token.SameWord (a b : Token) : Prop :=
  a.kind = b.kind ∧ a.lexeme = b.lexeme

/-! ### Ranks of operators -/

/-- The rank of a binary operator: the larger, the looser it binds. -/
def Kind.rank : Kind → Nat
  | .caret => 1
  | .percent => 3
  | .star | .slash => 4
  | .plus | .minus => 5
  | .gt | .ge | .lt | .le => 6
  | .ne | .eqeq => 7
  | .kwAnd => 8
  | .kwOr => 9
  | _ => 0

namespace Parse

/-- The signs that stand before an operand. -/
def signs : List Kind := [.tilde, .minus, .plus]

/-- The levels of binary operators that a whole expression may have. -/
def loosest : Nat := 7

/-- A literal holds a text between its first and its last character; one that is shorter holds
none. -/
def Encloses (lexeme text : String) : Prop :=
  (∃ first last, lexeme.toList = first :: text.toList ++ [last]) ∨
    lexeme.toList.length < 2 ∧ text = ""

/-- A tree under a rule of the grammar. -/
inductive Phrase where
  | primary (e : Expr)
  | power (e : Expr)
  | signed (e : Expr)
  /-- An expression with operators of the first `n` levels. -/
  | level (n : Nat) (e : Expr)
  | args (es : List Expr)
  | step (e : Option Expr)
  | params (ps : List Param)
  | stmt (s : Stmt)
  | stmts (ss : List Stmt)
  | block (b : Block)
  | otherwise (b : Option Block)

/-- The tokens `ts` are a way to write a phrase. -/
inductive Derives (same : Token → Token → Prop) : Phrase → List Token → Prop where
  | integer {t line} {n : Int} : t.kind = .integer → Number.readWhole t.lexeme = .ok n →
      Derives same (.primary (.integer n line)) [t]
  | real {t line} {x : Float} : t.kind = .float → Number.readReal t.lexeme = .ok x →
      Derives same (.primary (.real x line)) [t]
  | yes {t line} : t.kind = .kwTrue → Derives same (.primary (.bool true line)) [t]
  | no {t line} : t.kind = .kwFalse → Derives same (.primary (.bool false line)) [t]
  | text {t text line} : t.kind = .string → Encloses t.lexeme text →
      Derives same (.primary (.text text line)) [t]
  | group {t e ts close line} : t.kind = .lparen → Derives same (.level loosest e) ts →
      close.kind = .rparen → Derives same (.primary (.group e line)) (t :: ts ++ [close])
  | name {t line} : t.kind = .identifier → Derives same (.primary (.name t.lexeme line)) [t]
  | call {t paren es ts close line} : t.kind = .identifier → paren.kind = .lparen →
      Derives same (.args es) ts → close.kind = .rparen →
      Derives same (.primary (.call t.lexeme es line)) (t :: paren :: ts ++ [close])
  | noArgs : Derives same (.args []) []
  | lastArg {e ts} : Derives same (.level loosest e) ts → Derives same (.args [e]) ts
  | lastArgComma {e ts comma} : Derives same (.level loosest e) ts → comma.kind = .comma →
      Derives same (.args [e]) (ts ++ [comma])
  | moreArgs {e ts comma e' es ts'} : Derives same (.level loosest e) ts → comma.kind = .comma →
      Derives same (.args (e' :: es)) ts' →
      Derives same (.args (e :: e' :: es)) (ts ++ comma :: ts')
  | base {e ts} : Derives same (.primary e) ts → Derives same (.power e) ts
  | raised {l ts op t r ts' line} : Derives same (.primary l) ts → same op t → t.kind = .caret →
      Derives same (.power r) ts' → Derives same (.power (.binary op l r line)) (ts ++ t :: ts')
  | unsigned {e ts} : Derives same (.power e) ts → Derives same (.signed e) ts
  | sign {op t e ts line} : same op t → t.kind ∈ signs → Derives same (.signed e) ts →
      Derives same (.signed (.unary op e line)) (t :: ts)
  | operand {e ts} : Derives same (.signed e) ts → Derives same (.level 0 e) ts
  | tighter {n e ts} : Derives same (.level n e) ts → Derives same (.level (n + 1) e) ts
  | binary {n l ts op t r ts' line} : n < 5 → Derives same (.level (n + 1) l) ts → same op t →
      t.kind.rank = n + 3 → Derives same (.level n r) ts' →
      Derives same (.level (n + 1) (.binary op l r line)) (ts ++ t :: ts')
  | logical {n l ts op t r ts' line} : 5 ≤ n → Derives same (.level (n + 1) l) ts → same op t →
      t.kind.rank = n + 3 → Derives same (.level n r) ts' →
      Derives same (.level (n + 1) (.logical op l r line)) (ts ++ t :: ts')
  | print {t e ts line} : t.kind = .kwPrint → Derives same (.level loosest e) ts →
      Derives same (.stmt (.print e (.str "") line)) (t :: ts)
  | println {t e ts line} : t.kind = .kwPrintln → Derives same (.level loosest e) ts →
      Derives same (.stmt (.print e (.str "\n") line)) (t :: ts)
  | branch {t test ts t' b ts₁ o ts₂ close line} : t.kind = .kwIf →
      Derives same (.level loosest test) ts → t'.kind = .kwThen → Derives same (.block b) ts₁ →
      Derives same (.otherwise o) ts₂ → close.kind = .kwEnd →
      Derives same (.stmt (.branch test b o line)) (t :: ts ++ t' :: ts₁ ++ ts₂ ++ [close])
  | noElse : Derives same (.otherwise none) []
  | orElse {t b ts} : t.kind = .kwElse → Derives same (.block b) ts →
      Derives same (.otherwise (some b)) (t :: ts)
  | loop {t test ts t' b ts₁ close line} : t.kind = .kwWhile →
      Derives same (.level loosest test) ts → t'.kind = .kwDo → Derives same (.block b) ts₁ →
      close.kind = .kwEnd →
      Derives same (.stmt (.loop test b line)) (t :: ts ++ t' :: ts₁ ++ [close])
  | count {t var t₂ start ts₂ t₃ stop ts₃ step ts₄ t₅ b ts₅ close varLine line} :
      t.kind = .kwFor → var.kind = .identifier → t₂.kind = .assign →
      Derives same (.level loosest start) ts₂ → t₃.kind = .comma →
      Derives same (.level loosest stop) ts₃ → Derives same (.step step) ts₄ → t₅.kind = .kwDo →
      Derives same (.block b) ts₅ → close.kind = .kwEnd →
      Derives same (.stmt (.count var.lexeme varLine start stop step b line))
        (t :: var :: t₂ :: ts₂ ++ t₃ :: ts₃ ++ ts₄ ++ t₅ :: ts₅ ++ [close])
  | noStep : Derives same (.step none) []
  | someStep {t e ts} : t.kind = .comma → Derives same (.level loosest e) ts →
      Derives same (.step (some e)) (t :: ts)
  | func {t name t₂ ps ts t₃ b ts₃ close line} : t.kind = .kwFunc → name.kind = .identifier →
      t₂.kind = .lparen → Derives same (.params ps) ts → ps.length ≤ 255 →
      t₃.kind = .rparen → Derives same (.block b) ts₃ → close.kind = .kwEnd →
      Derives same (.stmt (.func name.lexeme ps b line))
        (t :: name :: t₂ :: ts ++ t₃ :: ts₃ ++ [close])
  | noParams : Derives same (.params []) []
  | lastParam {t line} : t.kind = .identifier → Derives same (.params [⟨t.lexeme, line⟩]) [t]
  | lastParamComma {t comma line} : t.kind = .identifier → comma.kind = .comma →
      Derives same (.params [⟨t.lexeme, line⟩]) [t, comma]
  | moreParams {t comma line p ps ts} : t.kind = .identifier → comma.kind = .comma →
      Derives same (.params (p :: ps)) ts →
      Derives same (.params (⟨t.lexeme, line⟩ :: p :: ps)) (t :: comma :: ts)
  | ret {t e ts line} : t.kind = .kwRet → Derives same (.level loosest e) ts →
      Derives same (.stmt (.ret e line)) (t :: ts)
  | assignLocal {t target ts t' e ts' line} : t.kind = .kwLocal →
      Derives same (.level loosest target) ts → t'.kind = .assign →
      Derives same (.level loosest e) ts' →
      Derives same (.stmt (.assignLocal target e line)) (t :: ts ++ t' :: ts')
  | assign {target ts t' e ts' line} : Derives same (.level loosest target) ts →
      t'.kind = .assign → Derives same (.level loosest e) ts' →
      Derives same (.stmt (.assign target e line)) (ts ++ t' :: ts')
  | callStmt {name es line ts} : Derives same (.primary (.call name es line)) ts →
      Derives same (.stmt (.call name es line)) ts
  | noStmts : Derives same (.stmts []) []
  | moreStmts {s ts ss ts'} : Derives same (.stmt s) ts → Derives same (.stmts ss) ts' →
      Derives same (.stmts (s :: ss)) (ts ++ ts')
  | block {ss ts line} : Derives same (.stmts ss) ts → Derives same (.block (.mk ss line)) ts

/-! ### The tables of the parser -/

theorem isSign_iff {k : Kind} : isSign k = true ↔ k ∈ signs := by
  simp [isSign, signs, or_assoc]

theorem mem_operators_iff {n : Nat} {k : Kind} (low : n < loosest) :
    k ∈ operators n ↔ k.rank = n + 3 := by
  constructor
  · intro mem
    match n, low with
    | 0, _ | 1, _ | 2, _ | 3, _ | 4, _ | 5, _ | 6, _ =>
      simp only [operators, List.mem_cons, List.not_mem_nil, or_false] at mem
      rcases mem with rfl | rfl | rfl | rfl <;> rfl
  · intro rank
    unfold Kind.rank at rank
    split at rank
    case h_1 => omega
    case h_15 => omega
    all_goals
      cases rank
      decide

theorem encloses_iff {lexeme text : String} : Encloses lexeme text ↔ unquote lexeme = text := by
  rw [← String.toList_inj, unquote, String.toList_ofList, Encloses]
  constructor
  · rintro (⟨first, last, chars⟩ | ⟨short, rfl⟩)
    · simp [chars]
    · refine List.length_eq_zero_iff.mp ?_
      simp only [List.length_dropLast, List.length_drop]
      omega
  · intro chars
    cases all : lexeme.toList with
    | nil => exact .inr ⟨by simp, String.toList_inj.mp (by simp [← chars, all])⟩
    | cons first rest =>
      rcases List.eq_nil_or_concat rest with rfl | ⟨between, last, rfl⟩
      · exact .inr ⟨by simp, String.toList_inj.mp (by simp [← chars, all])⟩
      · exact .inl ⟨first, last, by simp [← chars, all]⟩

/-- An expression without operators stands under the rule for operands. -/
theorem Derives.primary_of_level {same : Token → Token → Prop} {n : Nat} {e : Expr}
    {ts : List Token} (h : Derives same (.level n e) ts) (plain : e.isOperation = false) :
    Derives same (.primary e) ts := by
  induction n with
  | zero =>
    cases h with
    | operand h =>
      cases h with
      | unsigned h =>
        cases h with
        | base h => exact h
        | raised => simp [Expr.isOperation] at plain
      | sign => simp [Expr.isOperation] at plain
  | succ n ih =>
    cases h with
    | tighter h => exact ih h
    | binary => simp [Expr.isOperation] at plain
    | logical => simp [Expr.isOperation] at plain

end Parse

/-! ### Ranks of expressions -/

/-- The rank of an expression: zero if no operator stands outside parentheses, two for a sign. -/
def Expr.rank : Expr → Nat
  | .unary _ _ _ => 2
  | .binary op _ _ _ => op.kind.rank
  | .logical op _ _ _ => op.kind.rank
  | _ => 0

/-- The operands of an operator do not bind looser than it does. Powers nest to the right, all
other binary operators to the left. -/
def Expr.nested : Expr → Bool
  | .unary op operand _ => decide (op.kind ∈ Parse.signs) && decide (operand.rank ≤ 2)
  | .binary op left right _ =>
    if op.kind == .caret then left.rank == 0 && decide (right.rank ≤ 1)
    else
      decide (3 ≤ op.kind.rank) && decide (op.kind.rank ≤ 7) && decide (left.rank ≤ op.kind.rank) &&
        decide (right.rank < op.kind.rank)
  | .logical op left right _ =>
    decide (8 ≤ op.kind.rank) && decide (left.rank ≤ op.kind.rank) &&
      decide (right.rank < op.kind.rank)
  | _ => true

end ScriptLang
