import MarkdownLayout.Text.Utf8

/-!
# Octets are read back

The main statement is `decode_encode`: the octets of characters are read as those characters. Each
octet of a character is one step of the reader, so the proof follows the four lengths that a
character can have.
-/

namespace MarkdownLayout.Text.Utf8

/-- An octet below 128 is a character. -/
theorem decodeFrom_whole {read : List Char} {pos n : Nat} {rest : List UInt8} (h : n < 128) :
    decodeFrom read pos none (UInt8.ofNat n :: rest) =
      decodeFrom (Char.ofNat n :: read) (pos + 1) none rest := by
  have hn : (UInt8.ofNat n).toNat = n := by
    rw [UInt8.toNat_ofNat']
    omega
  rw [decodeFrom, hn, opening, if_pos h]

/-- The first octet of a longer character. -/
theorem decodeFrom_opens {read : List Char} {pos n owed value low high : Nat} {rest : List UInt8}
    (hn : n < 256) (h : opening n = .opens owed value low high) :
    decodeFrom read pos none (UInt8.ofNat n :: rest) =
      decodeFrom read (pos + 1) (some ⟨pos, UInt8.ofNat n, 1, value, owed, low, high⟩) rest := by
  have he : (UInt8.ofNat n).toNat = n := by
    rw [UInt8.toNat_ofNat']
    omega
  rw [decodeFrom, he, h]

/-- An octet in the middle of a character. -/
theorem decodeFrom_more {read : List Char} {pos n : Nat} {p : Pending} {rest : List UInt8}
    (hl : p.low ≤ n) (hh : n ≤ p.high) (hn : n < 256) (ho : 1 < p.owed) :
    decodeFrom read pos (some p) (UInt8.ofNat n :: rest) =
      decodeFrom read (pos + 1)
        (some { p with
          taken := p.taken + 1, value := p.value * 64 + n % 64, owed := p.owed - 1,
          low := 0x80, high := 0xBF }) rest := by
  have he : (UInt8.ofNat n).toNat = n := by
    rw [UInt8.toNat_ofNat']
    omega
  rw [decodeFrom, he, if_pos ⟨hl, hh⟩]
  dsimp only
  rw [if_neg (by omega)]

/-- The last octet of a character. -/
theorem decodeFrom_last {read : List Char} {pos n : Nat} {p : Pending} {rest : List UInt8}
    (hl : p.low ≤ n) (hh : n ≤ p.high) (hn : n < 256) (ho : p.owed ≤ 1) :
    decodeFrom read pos (some p) (UInt8.ofNat n :: rest) =
      decodeFrom (Char.ofNat (p.value * 64 + n % 64) :: read) (pos + 1) none rest := by
  have he : (UInt8.ofNat n).toNat = n := by
    rw [UInt8.toNat_ofNat']
    omega
  rw [decodeFrom, he, if_pos ⟨hl, hh⟩]
  dsimp only
  rw [if_pos ho]

theorem opening_two {b : Nat} (hl : 0xC2 ≤ b) (hh : b < 0xE0) :
    opening b = .opens 1 (b % 32) 0x80 0xBF := by
  rw [opening, if_neg (by omega), if_neg (by omega), if_pos hh]

theorem opening_three {b : Nat} (hl : 0xE0 ≤ b) (hh : b < 0xF0) :
    opening b =
      .opens 2 (b % 16) (if b = 0xE0 then 0xA0 else 0x80) (if b = 0xED then 0x9F else 0xBF) := by
  rw [opening, if_neg (by omega), if_neg (by omega), if_neg (by omega), if_pos hh]

theorem opening_four {b : Nat} (hl : 0xF0 ≤ b) (hh : b < 0xF5) :
    opening b =
      .opens 3 (b % 8) (if b = 0xF0 then 0x90 else 0x80) (if b = 0xF4 then 0x8F else 0xBF) := by
  rw [opening, if_neg (by omega), if_neg (by omega), if_neg (by omega), if_neg (by omega),
    if_pos hh]

/-- The octets of a code point, one case for each number of them. -/
theorem decodeFrom_codePoint {v : Nat} {l : List UInt8} (read : List Char) (pos : Nat)
    (rest : List UInt8) (hv : v < 0xD800 ∨ (0xDFFF < v ∧ v < 0x110000))
    (hl : l = if v ≤ 127 then [UInt8.ofNat v]
      else if v ≤ 2047 then [UInt8.ofNat (v / 64 % 32 + 192), UInt8.ofNat (v % 64 + 128)]
      else if v ≤ 65535 then
        [UInt8.ofNat (v / 4096 % 16 + 224), UInt8.ofNat (v / 64 % 64 + 128),
          UInt8.ofNat (v % 64 + 128)]
      else
        [UInt8.ofNat (v / 262144 % 8 + 240), UInt8.ofNat (v / 4096 % 64 + 128),
          UInt8.ofNat (v / 64 % 64 + 128), UInt8.ofNat (v % 64 + 128)]) :
    decodeFrom read pos none (l ++ rest) =
      decodeFrom (Char.ofNat v :: read) (pos + l.length) none rest := by
  by_cases h1 : v ≤ 127
  · rw [if_pos h1] at hl
    subst hl
    exact decodeFrom_whole (by omega)
  rw [if_neg h1] at hl
  by_cases h2 : v ≤ 2047
  · rw [if_pos h2] at hl
    subst hl
    have hs : (v / 64 % 32 + 192) % 32 * 64 + (v % 64 + 128) % 64 = v := by omega
    simp only [List.cons_append, List.nil_append]
    rw [decodeFrom_opens (by omega) (opening_two (by omega) (by omega)),
      decodeFrom_last (by dsimp only; omega) (by dsimp only; omega) (by omega)
        (by dsimp only; omega)]
    dsimp only
    rw [hs]
    rfl
  rw [if_neg h2] at hl
  by_cases h3 : v ≤ 65535
  · rw [if_pos h3] at hl
    subst hl
    have hs : ((v / 4096 % 16 + 224) % 16 * 64 + (v / 64 % 64 + 128) % 64) * 64 +
        (v % 64 + 128) % 64 = v := by omega
    simp only [List.cons_append, List.nil_append]
    rw [decodeFrom_opens (by omega) (opening_three (by omega) (by omega)),
      decodeFrom_more (by dsimp only; split <;> omega) (by dsimp only; split <;> omega) (by omega)
        (by dsimp only; omega),
      decodeFrom_last (by dsimp only; omega) (by dsimp only; omega) (by omega)
        (by dsimp only; omega)]
    dsimp only
    rw [hs]
    rfl
  rw [if_neg h3] at hl
  subst hl
  have hs : (((v / 262144 % 8 + 240) % 8 * 64 + (v / 4096 % 64 + 128) % 64) * 64 +
      (v / 64 % 64 + 128) % 64) * 64 + (v % 64 + 128) % 64 = v := by omega
  simp only [List.cons_append, List.nil_append]
  rw [decodeFrom_opens (by omega) (opening_four (by omega) (by omega)),
    decodeFrom_more (by dsimp only; split <;> omega) (by dsimp only; split <;> omega) (by omega)
      (by dsimp only; omega),
    decodeFrom_more (by dsimp only; omega) (by dsimp only; omega) (by omega) (by dsimp only; omega),
    decodeFrom_last (by dsimp only; omega) (by dsimp only; omega) (by omega) (by dsimp only; omega)]
  dsimp only
  rw [hs]
  rfl

/-- The octets of a character are read as the character. -/
theorem decodeFrom_encodeChar (read : List Char) (pos : Nat) (c : Char) (rest : List UInt8) :
    decodeFrom read pos none (String.utf8EncodeChar c ++ rest) =
      decodeFrom (c :: read) (pos + (String.utf8EncodeChar c).length) none rest := by
  have h := decodeFrom_codePoint read pos rest c.valid (String.utf8EncodeChar.eq_1 c)
  rwa [show Char.ofNat c.val.toNat = c from Char.ofNat_toNat c] at h

/-- Reading goes on after characters that have been read. -/
theorem decodeFrom_encode (cs read : List Char) (pos : Nat) :
    decodeFrom read pos none (encode cs) = .ok (read.reverse ++ cs) := by
  induction cs generalizing read pos with
  | nil => simp [decodeFrom]
  | cons c cs ih =>
    rw [encode_cons, decodeFrom_encodeChar, ih, List.reverse_cons, List.append_assoc]
    rfl

/-- What is written is read back. -/
theorem decode_encode (cs : List Char) : decode (encode cs) = .ok cs :=
  decodeFrom_encode cs [] 0

/-- A text is read back from its octets. -/
theorem text_octets (s : String) : text (octets s) = .ok s := by
  rw [text, octets, decode_encode, Except.map, String.ofList_toList]

/-- Different texts have different octets. -/
theorem octets_inj {s t : String} : octets s = octets t ↔ s = t := by
  constructor
  · intro h
    have htext := text_octets s
    rw [h, text_octets, Except.ok.injEq] at htext
    exact htext.symm
  · rintro rfl
    rfl

end MarkdownLayout.Text.Utf8
