/-!
Texts as octets: strict decoding of UTF-8.

A sequence is refused at the first octet that no well-formed character can hold there. The refusal
names the octets of the unfinished character and says what was wrong with the next one.
-/

namespace ScriptLang.Text

/-- Why a sequence of octets is not UTF-8. -/
inductive MalformedReason where
  /-- The octet cannot start a character. -/
  | start
  /-- The octet after these cannot continue the character. -/
  | continuation
  /-- The sequence ends inside a character. -/
  | unfinished
  deriving DecidableEq, Repr

/-- The octets that do not form a character: the first of them, where it stands, how many. -/
structure Malformed where
  octet : UInt8
  position : Nat
  count : Nat
  reason : MalformedReason
  deriving DecidableEq, Repr

/-- A character of which some octets have been read. -/
structure Partial where
  octet : UInt8
  position : Nat
  read : Nat
  /-- Continuation octets still owed. -/
  owed : Nat
  /-- The least and the greatest octet that may come next. -/
  low : UInt8
  high : UInt8
  /-- The bits read so far. -/
  bits : Nat

/-- What an octet starts between characters: a whole character or one with octets to come. -/
def Partial.start? (b : UInt8) (position : Nat) : Option (Char ⊕ Partial) :=
  let lead (owed : Nat) (low high : UInt8) (bits : Nat) : Option (Char ⊕ Partial) :=
    some (.inr ⟨b, position, 1, owed, low, high, bits⟩)
  if b ≤ 0x7f then some (.inl (Char.ofNat b.toNat))
  else if b < 0xc2 then none
  else if b ≤ 0xdf then lead 1 0x80 0xbf (b.toNat - 0xc0)
  else if b == 0xe0 then lead 2 0xa0 0xbf 0
  else if b == 0xed then lead 2 0x80 0x9f 0xd
  else if b ≤ 0xef then lead 2 0x80 0xbf (b.toNat - 0xe0)
  else if b == 0xf0 then lead 3 0x90 0xbf 0
  else if b ≤ 0xf3 then lead 3 0x80 0xbf (b.toNat - 0xf0)
  else if b == 0xf4 then lead 3 0x80 0x8f 4
  else none

/-- The refusal of a character that cannot go on. -/
def Partial.refuse (p : Partial) (reason : MalformedReason) : Malformed :=
  ⟨p.octet, p.position, p.read, reason⟩

/-- Decodes the octets from `position` on; `text` holds the characters before them. -/
def decodeFrom : List UInt8 → Nat → Option Partial → String → Except Malformed String
  | [], _, none, text => .ok text
  | [], _, some p, _ => .error (p.refuse .unfinished)
  | b :: rest, position, none, text =>
    match Partial.start? b position with
    | none => .error ⟨b, position, 1, .start⟩
    | some (.inl c) => decodeFrom rest (position + 1) none (text.push c)
    | some (.inr p) => decodeFrom rest (position + 1) (some p) text
  | b :: rest, position, some p, text =>
    if p.low ≤ b && b ≤ p.high then
      let bits := p.bits * 64 + (b.toNat - 0x80)
      if p.owed ≤ 1 then decodeFrom rest (position + 1) none (text.push (Char.ofNat bits))
      else decodeFrom rest (position + 1)
        (some { p with read := p.read + 1, owed := p.owed - 1, low := 0x80, high := 0xbf, bits })
        text
    else .error (p.refuse .continuation)

/-- The text that octets encode. -/
def decodeOctets (octets : List UInt8) : Except Malformed String :=
  decodeFrom octets 0 none ""

/-- The octets of a text. -/
def octets (s : String) : List UInt8 :=
  s.toUTF8.toList

end ScriptLang.Text
