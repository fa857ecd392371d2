/-!
# UTF-8

Characters leave this library as UTF-8 octets and are read back from them. The reader takes one
octet at a time and keeps a character that is not complete yet, so a faulty text is refused with
the range of octets that begins a character and does not end it.
-/

namespace MarkdownLayout.Text.Utf8

/-- The octets of a list of characters. -/
def encode (cs : List Char) : List UInt8 :=
  cs.flatMap String.utf8EncodeChar

@[simp] theorem encode_nil : encode [] = [] := rfl

@[simp] theorem encode_cons (c : Char) (cs : List Char) :
    encode (c :: cs) = String.utf8EncodeChar c ++ encode cs := rfl

@[simp] theorem encode_append (cs ds : List Char) : encode (cs ++ ds) = encode cs ++ encode ds :=
  List.flatMap_append

/-- The octets of a text. -/
def octets (s : String) : List UInt8 :=
  encode s.toList

/-- Why a range of octets is no character. -/
inductive Reason where
  /-- The first octet begins no character. -/
  | start
  /-- The octet after the range does not continue the character. -/
  | continuation
  /-- The octets end inside the character. -/
  | ending
  deriving DecidableEq, Repr

/-- A range of octets that is no character. -/
structure Fault where
  /-- Position of the first octet of the range. -/
  first : Nat
  /-- Number of octets in the range. -/
  count : Nat
  /-- The first octet of the range. -/
  octet : UInt8
  /-- What is wrong. -/
  reason : Reason
  deriving DecidableEq, Repr

/-- What the first octet of a character says about it. -/
inductive Opening where
  /-- The octet is a character by itself. -/
  | whole
  /-- The octet carries `value` and owes `owed` more, the next one between `low` and `high`. -/
  | opens (owed value low high : Nat)
  /-- No character begins with the octet. -/
  | refused
  deriving DecidableEq, Repr

/-- Classify the first octet of a character. -/
def opening (b : Nat) : Opening :=
  if b < 0x80 then .whole
  else if b < 0xC2 then .refused
  else if b < 0xE0 then .opens 1 (b % 32) 0x80 0xBF
  else if b < 0xF0 then
    .opens 2 (b % 16) (if b = 0xE0 then 0xA0 else 0x80) (if b = 0xED then 0x9F else 0xBF)
  else if b < 0xF5 then
    .opens 3 (b % 8) (if b = 0xF0 then 0x90 else 0x80) (if b = 0xF4 then 0x8F else 0xBF)
  else .refused

/-- A character that still owes octets. -/
structure Pending where
  /-- Position of its first octet. -/
  first : Nat
  /-- Its first octet. -/
  octet : UInt8
  /-- Octets read so far. -/
  taken : Nat
  /-- The bits read so far. -/
  value : Nat
  /-- Octets still owed. -/
  owed : Nat
  /-- The least octet that may follow. -/
  low : Nat
  /-- The greatest octet that may follow. -/
  high : Nat
  deriving DecidableEq, Repr

/-- Read octets from position `pos`, after the characters `read` (last one first). -/
def decodeFrom (read : List Char) (pos : Nat) :
    Option Pending → List UInt8 → Except Fault (List Char)
  | none, [] => .ok read.reverse
  | some p, [] => .error ⟨p.first, p.taken, p.octet, .ending⟩
  | none, b :: rest =>
    match opening b.toNat with
    | .whole => decodeFrom (Char.ofNat b.toNat :: read) (pos + 1) none rest
    | .opens owed value low high =>
      decodeFrom read (pos + 1) (some ⟨pos, b, 1, value, owed, low, high⟩) rest
    | .refused => .error ⟨pos, 1, b, .start⟩
  | some p, b :: rest =>
    if p.low ≤ b.toNat ∧ b.toNat ≤ p.high then
      let value := p.value * 64 + b.toNat % 64
      if p.owed ≤ 1 then decodeFrom (Char.ofNat value :: read) (pos + 1) none rest
      else
        decodeFrom read (pos + 1)
          (some
            { p with taken := p.taken + 1, value, owed := p.owed - 1, low := 0x80, high := 0xBF })
          rest
    else .error ⟨p.first, p.taken, p.octet, .continuation⟩

/-- The characters that the octets write. -/
def decode (bs : List UInt8) : Except Fault (List Char) :=
  decodeFrom [] 0 none bs

/-- The text that the octets write. -/
def text (bs : List UInt8) : Except Fault String :=
  (decode bs).map String.ofList

end MarkdownLayout.Text.Utf8
