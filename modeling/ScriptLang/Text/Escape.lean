import ScriptLang.Text.Octets

/-!
Backslash escapes in printed texts.

Escapes name single octets: a text is unescaped on its UTF-8 octets and the result is decoded
again, so an escape can complete or break a character. An escape that is not known stays as it is.
-/

namespace ScriptLang.Text

/-- Why a text cannot be printed. -/
inductive UnescapeError where
  /-- The text ends in a backslash. -/
  | trailingBackslash
  /-- The backslash of a `\x` without two hexadecimal digits stands here. -/
  | badHex (position : Nat)
  /-- The unescaped octets are no text. -/
  | malformed (cause : Malformed)
  deriving DecidableEq, Repr

/-- The value of a hexadecimal digit. -/
def hexValue? (b : UInt8) : Option UInt8 :=
  if 0x30 ≤ b && b ≤ 0x39 then some (b - 0x30)
  else if 0x61 ≤ b && b ≤ 0x66 then some (b - 0x57)
  else if 0x41 ≤ b && b ≤ 0x46 then some (b - 0x37)
  else none

/-- An octal digit. -/
def isOctal (b : UInt8) : Bool :=
  0x30 ≤ b && b ≤ 0x37

/-- The octet that a one-letter escape stands for. -/
def letterEscape? (b : UInt8) : Option UInt8 :=
  if b == 0x5c || b == 0x27 || b == 0x22 then some b
  else if b == 0x61 then some 7
  else if b == 0x62 then some 8
  else if b == 0x74 then some 9
  else if b == 0x6e then some 10
  else if b == 0x76 then some 11
  else if b == 0x66 then some 12
  else if b == 0x72 then some 13
  else none

/-- Reads at most `room` octal digits after the value `v`; what is too large for an octet loses
its high bits. -/
def octalRun : Nat → UInt8 → List UInt8 → UInt8 × List UInt8
  | 0, v, rest => (v, rest)
  | _ + 1, v, [] => (v, [])
  | room + 1, v, d :: rest =>
    if isOctal d then octalRun room (v * 8 + (d - 0x30)) rest else (v, d :: rest)

theorem octalRun_length_le (room : Nat) (v : UInt8) (rest : List UInt8) :
    (octalRun room v rest).2.length ≤ rest.length := by
  induction room generalizing v rest with
  | zero => simp [octalRun]
  | succ room ih =>
    cases rest with
    | nil => simp [octalRun]
    | cons d rest =>
      simp only [octalRun]
      split
      · exact Nat.le_succ_of_le (ih _ _)
      · exact Nat.le_refl _

/-- Unescapes the last octets of a text of `total` octets; `done` holds the result so far, last
octet first. -/
def unescapeFrom (total : Nat) (bytes done : List UInt8) : Except UnescapeError (List UInt8) :=
  match bytes with
  | [] => .ok done.reverse
  | 0x5c :: rest =>
    match rest with
    | [] => .error .trailingBackslash
    | e :: rest =>
      if e == 0x0a then unescapeFrom total rest done
      else if e == 0x78 then
        match rest with
        | h :: l :: rest' =>
          match hexValue? h, hexValue? l with
          | some h, some l => unescapeFrom total rest' ((h * 16 + l) :: done)
          | _, _ => .error (.badHex (total - bytes.length))
        | _ => .error (.badHex (total - bytes.length))
      else if isOctal e then
        have := octalRun_length_le 2 (e - 0x30) rest
        unescapeFrom total (octalRun 2 (e - 0x30) rest).2
          ((octalRun 2 (e - 0x30) rest).1 :: done)
      else
        match letterEscape? e with
        | some b => unescapeFrom total rest (b :: done)
        | none => unescapeFrom total rest (e :: 0x5c :: done)
  | b :: rest => unescapeFrom total rest (b :: done)
termination_by bytes.length
decreasing_by all_goals (simp_all; try omega)

/-- The text that is printed for `s`. -/
def unescape (s : String) : Except UnescapeError String :=
  match unescapeFrom (octets s).length (octets s) [] with
  | .error e => .error e
  | .ok bytes =>
    match decodeOctets bytes with
    | .error e => .error (.malformed e)
    | .ok text => .ok text

end ScriptLang.Text
