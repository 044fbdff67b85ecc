import ScriptLang.Json.Basic
import ScriptLang.Number.Numeral

/-!
Reading JSON documents.

Each rule takes the characters that are left and gives back fewer, which bounds the recursion. A
name that occurs twice in an object keeps its first place and its last value. The words for what is
not a finite number are read too.
-/

namespace ScriptLang.Json

/-- A result, and the characters after it: fewer than the `cs` it was read from. -/
abbrev Shorter (α : Type) (cs : List Char) := { r : α × List Char // r.2.length < cs.length }

/-- A blank between the parts of a document. -/
def isBlank (c : Char) : Bool :=
  c == ' ' || c == '\t' || c == '\n' || c == '\r'

/-- Drops the blanks in front. -/
def skipBlanks (cs : List Char) : List Char :=
  cs.dropWhile isBlank

theorem skipBlanks_length_le (cs : List Char) : (skipBlanks cs).length ≤ cs.length :=
  (List.dropWhile_suffix isBlank).length_le

/-- The words that stand for a document. -/
def words : List (String × Json) :=
  [("null", .null), ("true", .bool true), ("false", .bool false), ("NaN", .real (0.0 / 0.0)),
    ("Infinity", .real (1.0 / 0.0)), ("-Infinity", .real (-1.0 / 0.0))]

/-- The word a text starts with. -/
def word? (cs : List Char) : Option (Json × List Char) :=
  (words.find? fun w => w.1.toList.isPrefixOf cs).map fun w => (w.2, cs.drop w.1.length)

/-- The digits a text starts with, if there are any, and what follows them. -/
def digits? (cs : List Char) : Option (List Char × List Char) :=
  if (cs.takeWhile Char.isDigit).isEmpty then none
  else some (cs.takeWhile Char.isDigit, cs.dropWhile Char.isDigit)

/-- The whole part of a number: a zero, or digits that do not start with one. -/
def whole? : List Char → Option (List Char × List Char)
  | '0' :: rest => some (['0'], rest)
  | cs => digits? cs

/-- The fraction of a number, if a digit follows the point. -/
def fraction : List Char → List Char × List Char
  | '.' :: rest =>
    match digits? rest with
    | some (ds, rest) => (ds, rest)
    | none => ([], '.' :: rest)
  | cs => ([], cs)

/-- The exponent of a number, if it has a digit. -/
def exponent? : List Char → Option (Int × List Char)
  | c :: rest =>
    if c == 'e' || c == 'E' then
      let parts := Number.splitSign rest
      (digits? parts.2).map fun d =>
        let n : Int := Number.digitsValue d.1
        (if parts.1 then -n else n, d.2)
    else none
  | [] => none

/-- The real number with these digits before and after the point, times `10 ^ e`. -/
def decimal (negative : Bool) (ds fs : List Char) (e : Int) : Float :=
  Number.ofDecimal negative (Number.digitsValue (ds ++ fs)) (e - fs.length)

/-- The number a text starts with; one without fraction and exponent is whole. -/
def number? (cs : List Char) : Option (Json × List Char) :=
  let negative := cs.head? == some '-'
  (whole? (if negative then cs.tail else cs)).map fun (ds, rest) =>
    let (fs, rest) := fraction rest
    match fs, exponent? rest with
    | [], none =>
      let n : Int := Number.digitsValue ds
      (.int (if negative then -n else n), rest)
    | _, none => (.real (decimal negative ds fs 0), rest)
    | _, some (e, rest) => (.real (decimal negative ds fs e), rest)

/-- The value of a run of hexadecimal digits. -/
def hexUnit? (a b c d : Char) : Option Nat :=
  [a, b, c, d].foldl (fun n c =>
    n.bind fun n =>
      if c.isDigit then some (n * 16 + (c.toNat - 48))
      else if 'a' ≤ c && c ≤ 'f' then some (n * 16 + (c.toNat - 87))
      else if 'A' ≤ c && c ≤ 'F' then some (n * 16 + (c.toNat - 55))
      else none) (some 0)

/-- The character that a one-letter escape stands for. -/
def letter? (c : Char) : Option Char :=
  if c == '"' || c == '\\' || c == '/' then some c
  else if c == 'n' then some '\n'
  else if c == 'r' then some '\r'
  else if c == 't' then some '\t'
  else if c == 'b' then some '\x08'
  else if c == 'f' then some '\x0c'
  else none

/-- The character of a UTF-16 unit; half a pair is none. -/
def unitChar (n : Nat) : Char :=
  if 0xd800 ≤ n && n < 0xe000 then '�' else Char.ofNat n

/-- The rest of a string, up to and with its quote; `done` holds its characters, last first. -/
def chars? : List Char → List Char → Option (String × List Char)
  | '"' :: rest, done => some (String.ofList done.reverse, rest)
  | '\\' :: 'u' :: a :: b :: c :: d :: '\\' :: 'u' :: e :: f :: g :: h :: rest, done =>
    match hexUnit? a b c d, hexUnit? e f g h with
    | some high, some low =>
      if 0xd800 ≤ high && high < 0xdc00 && 0xdc00 ≤ low && low < 0xe000 then
        chars? rest (Char.ofNat (0x10000 + (high - 0xd800) * 0x400 + (low - 0xdc00)) :: done)
      else chars? ('\\' :: 'u' :: e :: f :: g :: h :: rest) (unitChar high :: done)
    | some unit, none => chars? ('\\' :: 'u' :: e :: f :: g :: h :: rest) (unitChar unit :: done)
    | none, _ => none
  | '\\' :: 'u' :: a :: b :: c :: d :: rest, done =>
    (hexUnit? a b c d).bind fun n => chars? rest (unitChar n :: done)
  | '\\' :: e :: rest, done => (letter? e).bind fun c => chars? rest (c :: done)
  | c :: rest, done => if c.toNat < 0x20 then none else chars? rest (c :: done)
  | [], _ => none
termination_by cs _ => cs.length

/-- The string a text starts with. -/
def string? : List Char → Option (String × List Char)
  | '"' :: rest => chars? rest []
  | _ => none

/-- Keeps a result that has left fewer characters. -/
def shorter? {α : Type} (cs : List Char) (r : α × List Char) : Option (Shorter α cs) :=
  if h : r.2.length < cs.length then some ⟨r, h⟩ else none

/-- The document without parts that a text starts with. -/
def scalar? (cs : List Char) : Option (Shorter Json cs) :=
  let r :=
    match string? cs with
    | some (s, rest) => some (Json.str s, rest)
    | none => (word? cs).or (number? cs)
  r.bind (shorter? cs)

/-- The name of a field with its colon. -/
def name? (cs : List Char) : Option (Shorter String cs) :=
  match string? cs with
  | some (s, rest) =>
    match skipBlanks rest with
    | ':' :: rest => shorter? cs (s, rest)
    | _ => none
  | none => none

mutual

/-- The document a text starts with. -/
def value? (cs : List Char) : Option (Shorter Json cs) :=
  match cs with
  | '[' :: rest =>
    have hle := skipBlanks_length_le rest
    match hs : skipBlanks rest with
    | ']' :: after => some ⟨(.arr [], after), by
        rw [hs] at hle
        simp only [List.length_cons] at hle ⊢
        omega⟩
    | inner =>
      have hi : inner.length < ('[' :: rest).length := Nat.lt_succ_of_le (hs ▸ hle)
      (items? inner []).map fun r => ⟨(.arr r.val.1, r.val.2), Nat.lt_trans r.property hi⟩
  | '\x7b' :: rest =>
    have hle := skipBlanks_length_le rest
    match hs : skipBlanks rest with
    | '\x7d' :: after => some ⟨(.obj [], after), by
        rw [hs] at hle
        simp only [List.length_cons] at hle ⊢
        omega⟩
    | inner =>
      have hi : inner.length < ('\x7b' :: rest).length := Nat.lt_succ_of_le (hs ▸ hle)
      (fields? inner []).map fun r => ⟨(.obj r.val.1, r.val.2), Nat.lt_trans r.property hi⟩
  | cs => scalar? cs
termination_by (cs.length, 0)

/-- The items of an array up to and with its bracket; `done` holds those before, last first. -/
def items? (cs : List Char) (done : List Json) : Option (Shorter (List Json) cs) :=
  match value? cs with
  | none => none
  | some ⟨(j, rest), hr⟩ =>
    have hle := skipBlanks_length_le rest
    match hs : skipBlanks rest with
    | ',' :: after =>
      have ha : (skipBlanks after).length < cs.length := by
        have := skipBlanks_length_le after
        rw [hs] at hle
        simp only [List.length_cons] at hle hr
        omega
      (items? (skipBlanks after) (j :: done)).map fun r => ⟨r.val, Nat.lt_trans r.property ha⟩
    | ']' :: after => some ⟨((j :: done).reverse, after), by
        rw [hs] at hle
        simp only [List.length_cons] at hle hr ⊢
        omega⟩
    | _ => none
termination_by (cs.length, 1)

/-- The fields of an object up to and with its brace; `done` holds those before. -/
def fields? (cs : List Char) (done : Table Json) : Option (Shorter (Table Json) cs) :=
  match name? cs with
  | none => none
  | some ⟨(name, rest), hn⟩ =>
    have hle := skipBlanks_length_le rest
    have hlt : (skipBlanks rest).length < cs.length := Nat.lt_of_le_of_lt hle hn
    match value? (skipBlanks rest) with
    | none => none
    | some ⟨(j, rest'), hr⟩ =>
      have hle' := skipBlanks_length_le rest'
      match hs : skipBlanks rest' with
      | ',' :: after =>
        have ha : (skipBlanks after).length < cs.length := by
          have := skipBlanks_length_le after
          rw [hs] at hle'
          simp only [List.length_cons] at hle' hr
          omega
        (fields? (skipBlanks after) (done.put name j)).map fun r =>
          ⟨r.val, Nat.lt_trans r.property ha⟩
      | '\x7d' :: after => some ⟨(done.put name j, after), by
          rw [hs] at hle'
          simp only [List.length_cons] at hle' hr ⊢
          omega⟩
      | _ => none
termination_by (cs.length, 1)

end

/-- The document that a text is. -/
def parse? (s : String) : Option Json :=
  match value? (skipBlanks s.toList) with
  | some ⟨(j, rest), _⟩ => if (skipBlanks rest).isEmpty then some j else none
  | none => none

end ScriptLang.Json
