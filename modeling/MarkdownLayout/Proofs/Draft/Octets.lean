import MarkdownLayout.Proofs.Draft.Basic
import MarkdownLayout.Text.Utf8.RoundTrip

/-!
# Drafts and writers

Every draft stands for a writer, `Draft.toWriter`, and every operation of a writer that stands for a
draft does what the operation on the draft does. In particular writing a span never fails on such a
writer: the break point lies in front of a whole character, so what a break moves can be read back.

The only facts about UTF-8 used are that an octet below 128 is a whole character and that the octets
of all other characters are not below 128.
-/

namespace MarkdownLayout

namespace Text.Utf8

/-- An ASCII character is its own octet. -/
theorem encodeChar_of_lt {c : Char} (h : c.toNat < 128) :
    String.utf8EncodeChar c = [UInt8.ofNat c.toNat] := by
  rw [String.utf8EncodeChar.eq_1, if_pos (show c.val.toNat ≤ 127 from Nat.le_of_lt_succ h)]
  rfl

/-- No octet of another character is an ASCII octet. -/
theorem le_of_mem_encodeChar {c : Char} {b : UInt8} (h : 128 ≤ c.toNat)
    (hb : b ∈ String.utf8EncodeChar c) : 128 ≤ b.toNat := by
  have hv : ¬ c.val.toNat ≤ 127 := by
    have : c.toNat = c.val.toNat := rfl
    omega
  rw [String.utf8EncodeChar.eq_1, if_neg hv] at hb
  split at hb
  · simp only [List.mem_cons, List.not_mem_nil, or_false] at hb
    rcases hb with rfl | rfl <;> rw [UInt8.toNat_ofNat'] <;> omega
  · split at hb
    · simp only [List.mem_cons, List.not_mem_nil, or_false] at hb
      rcases hb with rfl | rfl | rfl <;> rw [UInt8.toNat_ofNat'] <;> omega
    · simp only [List.mem_cons, List.not_mem_nil, or_false] at hb
      rcases hb with rfl | rfl | rfl | rfl <;> rw [UInt8.toNat_ofNat'] <;> omega

theorem encodeChar_ne_nil (c : Char) : String.utf8EncodeChar c ≠ [] := by
  have h := String.length_utf8EncodeChar c
  have hp := c.utf8Size_pos
  intro hn
  rw [hn] at h
  simp at h
  omega

@[simp] theorem encode_eq_nil_iff {cs : List Char} : encode cs = [] ↔ cs = [] := by
  cases cs with
  | nil => simp
  | cons c cs => simp

/-- A character takes at least one octet. -/
theorem length_le_length_encode (cs : List Char) : cs.length ≤ (encode cs).length := by
  induction cs with
  | nil => exact Nat.le_refl 0
  | cons c cs ih =>
    have hn := List.length_pos_iff.2 (encodeChar_ne_nil c)
    rw [encode_cons, List.length_append, List.length_cons]
    omega

/-- An ASCII text takes as many octets as characters. -/
theorem length_encode_of_ascii {cs : List Char} (h : ∀ c ∈ cs, c.toNat < 128) :
    (encode cs).length = cs.length := by
  induction cs with
  | nil => rfl
  | cons c cs ih =>
    obtain ⟨hc, hcs⟩ := List.forall_mem_cons.mp h
    rw [encode_cons, encodeChar_of_lt hc, List.length_append, ih hcs, List.length_cons]
    exact Nat.add_comm 1 cs.length

/-- A class of octets and a class of characters that hold the same ASCII characters and no
others. -/
structure SameClass (p : UInt8 → Bool) (q : Char → Bool) : Prop where
  /-- No other octet is in the class. -/
  octet : ∀ b : UInt8, 128 ≤ b.toNat → p b = false
  /-- No other character is in the class. -/
  char : ∀ c : Char, 128 ≤ c.toNat → q c = false
  /-- The two agree on ASCII. -/
  ascii : ∀ n, n < 128 → p (UInt8.ofNat n) = q (Char.ofNat n)

namespace SameClass

variable {p : UInt8 → Bool} {q : Char → Bool}

/-- Every octet of a character tells whether the character is in the class. -/
theorem of_mem (h : SameClass p q) {c : Char} {b : UInt8} (hb : b ∈ String.utf8EncodeChar c) :
    p b = q c := by
  by_cases hc : c.toNat < 128
  · rw [encodeChar_of_lt hc, List.mem_singleton] at hb
    rw [hb, h.ascii _ hc, Char.ofNat_toNat]
  · rw [h.char c (by omega), h.octet b (le_of_mem_encodeChar (by omega) hb)]

/-- The first octet of a text is in the class when its first character is. -/
theorem any_head? (h : SameClass p q) (cs : List Char) :
    (encode cs).head?.any p = cs.head?.any q := by
  cases cs with
  | nil => rfl
  | cons c cs =>
    have hn := encodeChar_ne_nil c
    rw [encode_cons, List.head?_append, List.head?_eq_some_head hn, List.head?_cons]
    exact h.of_mem (List.head_mem hn)

/-- The last octet of a text is in the class when its last character is. -/
theorem any_getLast? (h : SameClass p q) (cs : List Char) :
    (encode cs).getLast?.any p = cs.getLast?.any q := by
  obtain rfl | ⟨cs, c, rfl⟩ := cs.eq_nil_or_concat
  · rfl
  · have hn := encodeChar_ne_nil c
    rw [List.concat_eq_append, encode_append, encode_cons, encode_nil, List.append_nil,
      List.getLast?_append, List.getLast?_eq_some_getLast hn, List.getLast?_concat]
    exact h.of_mem (List.getLast_mem hn)

/-- A text ends with as many octets of the class as it ends with characters of it. -/
theorem length_takeWhile_reverse (h : SameClass p q) (cs : List Char) :
    ((encode cs).reverse.takeWhile p).length = (cs.reverse.takeWhile q).length := by
  induction hr : cs.reverse generalizing cs with
  | nil =>
    rw [List.reverse_eq_nil_iff.1 hr]
    rfl
  | cons c rest ih =>
    have hcs : cs = rest.reverse ++ [c] := by
      rw [← List.reverse_reverse cs, hr, List.reverse_cons]
    have hrest := ih rest.reverse (List.reverse_reverse rest)
    rw [hcs, encode_append, encode_cons, encode_nil, List.append_nil, List.reverse_append]
    by_cases hc : q c = true
    · have hlt : c.toNat < 128 := by
        rcases Nat.lt_or_ge c.toNat 128 with hlt | hge
        · exact hlt
        · rw [h.char c hge] at hc
          cases hc
      have hp : p (UInt8.ofNat c.toNat) = true := by rw [h.ascii _ hlt, Char.ofNat_toNat, hc]
      rw [encodeChar_of_lt hlt, List.takeWhile_cons_of_pos hc]
      simp [hp, hrest]
    · obtain ⟨b, bs, hb⟩ := List.exists_cons_of_ne_nil
        (List.reverse_ne_nil_iff.2 (encodeChar_ne_nil c))
      have hm : b ∈ String.utf8EncodeChar c := by
        rw [← List.mem_reverse, hb]
        exact List.mem_cons_self
      have hp : ¬ p b = true := by rw [h.of_mem hm]; exact hc
      rw [hb, List.cons_append, List.takeWhile_cons_of_neg hp, List.takeWhile_cons_of_neg hc]
      rfl

end SameClass

/-- Digits are recognised by their octets. -/
theorem sameClass_digit : SameClass Writer.isDigitOctet Char.isDigit where
  octet b hb := by
    have : ¬ b ≤ 0x39 := by
      rw [UInt8.le_iff_toNat_le]
      exact fun h => absurd (Nat.le_trans hb h) (by decide)
    simp [Writer.isDigitOctet, this]
  char c hc := by
    have : ¬ c.val ≤ 57 := by
      rw [UInt32.le_iff_toNat_le]
      exact fun h => absurd (Nat.le_trans hc h) (by decide)
    simp [Char.isDigit, this]
  ascii := by decide

/-- Line ends are recognised by their octets. -/
theorem sameClass_newline : SameClass (· == Writer.newline) (· == '\n') where
  octet b hb := by
    rw [beq_eq_false_iff_ne]
    rintro rfl
    exact absurd hb (by decide)
  char c hc := by
    rw [beq_eq_false_iff_ne]
    rintro rfl
    exact absurd hc (by decide)
  ascii := by decide

/-- No octet of a text on one line ends a line. -/
theorem newline_notMem_encode {cs : List Char} (h : '\n' ∉ cs) : Writer.newline ∉ encode cs := by
  intro hb
  obtain ⟨c, hc, hb⟩ := List.mem_flatMap.mp hb
  have hsame := sameClass_newline.of_mem hb
  have hn : c = '\n' := by simpa using hsame.symm
  exact h (hn ▸ hc)

theorem toNat_lt_of_mem_opensBlock {c : Char} (h : c ∈ Writer.opensBlock) : c.toNat < 128 := by
  rcases Writer.eq_of_mem_opensBlock h with rfl | rfl | rfl | rfl <;> decide

/-- What opens a block is recognised by its octet. -/
theorem sameClass_opensBlock :
    SameClass Writer.opensBlockOctet (fun c => decide (c ∈ Writer.opensBlock)) where
  octet b hb := by
    rw [Writer.opensBlockOctet, List.any_eq_false]
    intro c hc he
    have := toNat_lt_of_mem_opensBlock hc
    have := eq_of_beq he
    omega
  char c hc := by
    rw [decide_eq_false_iff_not]
    intro hm
    have := toNat_lt_of_mem_opensBlock hm
    omega
  ascii := by decide

end Text.Utf8

namespace Draft

open Text.Utf8 (encode)

/-- The writer that a draft stands for. -/
def toWriter (d : Draft) : Writer where
  width := d.width
  buffer := (encode d.text).toArray
  segments := d.segments
  margin := (encode d.margin).toArray
  column := d.column
  owed := d.owed
  breakPoint :=
    match d.line with
    | .loose .. => some (encode (Glyph.chars d.head)).length
    | _ => none
  tailEscapes :=
    match d.line with
    | .loose (_ :: _) escapes => some escapes
    | _ => none
  atLineStart := d.atLineStart
  marginWritten :=
    match d.line with
    | .fresh => false
    | _ => true
  keepsLines := d.keepsLines

/-- Escapes are decided alike on characters and on octets. -/
theorem needsEscape_toWriter (d : Draft) (c : Char) (next : Option Char) :
    d.toWriter.needsEscape c next = d.needsEscape c next := by
  unfold Writer.needsEscape needsEscape
  dsimp only [toWriter]
  rw [List.back?_toArray, Text.Utf8.sameClass_digit.any_getLast?]

/-- The margin of a line is written alike. -/
theorem openLine_toWriter (d : Draft) : d.toWriter.openLine = d.openLine.toWriter := by
  obtain ⟨width, head, line, segments, column, owed, keepsLines⟩ := d
  cases line <;>
    simp [Writer.openLine, openLine, toWriter, atLineStart, text, glyphs, margin, indent]

/-- A breakable blank is written alike. -/
theorem placeBlank_toWriter (d : Draft) : d.toWriter.placeBlank = d.placeBlank.toWriter := by
  obtain ⟨width, head, line, segments, column, owed, keepsLines⟩ := d
  have hb : String.utf8EncodeChar ' ' = [Writer.blank] := by decide
  cases line <;>
    simp [Writer.placeBlank, placeBlank, toWriter, atLineStart, text, glyphs, margin, hb]

/-- A line is ended alike. -/
theorem placeNewline_toWriter (d : Draft) :
    d.toWriter.placeNewline = (d.endLine ['\n']).toWriter := by
  have hb : String.utf8EncodeChar '\n' = [Writer.newline] := by decide
  simp [Writer.placeNewline, Writer.startLine, endLine, toWriter, atLineStart, text, glyphs, margin,
    hb]

/-- A character is written alike, with its backslash. -/
theorem placeGlyph_toWriter (escapes : Bool) (c : Char) (next : Option Char) {d : Draft}
    (h : d.line ≠ .fresh) :
    d.toWriter.placeGlyph escapes c next =
      (d.append escapes (d.spelled escapes c next)).toWriter := by
  unfold Writer.placeGlyph spelled
  rw [needsEscape_toWriter]
  have hb : String.utf8EncodeChar '\\' = [Writer.backslash] := by decide
  obtain ⟨width, head, line, segments, column, owed, keepsLines⟩ := d
  generalize (escapes && needsEscape _ c next) = guarded
  rcases line with _ | _ | _ | ⟨_ | ⟨t, tail⟩, first⟩
  · exact absurd rfl h
  all_goals cases guarded <;>
    simp [append, toWriter, atLineStart, text, glyphs, margin, hb]

/-- One character of a span is written alike. -/
theorem place_toWriter (policy : Policy) (c : Char) (next : Option Char) {d : Draft}
    (h : d.line ≠ .fresh) : d.toWriter.place policy c next = (d.place policy c next).toWriter := by
  unfold Writer.place place
  split
  · exact placeBlank_toWriter d
  · split
    · exact placeNewline_toWriter d
    · exact placeGlyph_toWriter policy.escapes c next h

/-- The octets around a break point. -/
theorem buffer_toWriter_of_loose {d : Draft} {tail : List Char} {escapes : Bool}
    (h : d.line = .loose tail escapes) :
    d.toWriter.buffer =
      (encode (Glyph.chars d.head) ++ Writer.blank :: encode tail).toArray := by
  have hs : String.utf8EncodeChar ' ' = [Writer.blank] := by decide
  simp [toWriter, text, glyphs, h, hs]

/-- A tail is guarded alike. -/
theorem tailGuard_toWriter {d : Draft} {tail : List Char} {escapes : Bool}
    (h : d.line = .loose tail escapes) :
    (d.toWriter.tailEscapes = some true ∧ (encode tail)[0]?.any Writer.opensBlockOctet) ↔
      (escapes = true ∧ tail.head?.any (· ∈ Writer.opensBlock)) := by
  have ho := Text.Utf8.sameClass_opensBlock.any_head? tail
  rw [← List.head?_eq_getElem?, ho]
  cases tail with
  | nil => simp
  | cons t rest => simp [toWriter, h]

/-- What follows the break point is moved alike, and can always be read. -/
theorem rewind_toWriter {d : Draft} {tail : List Char} {escapes : Bool}
    (h : d.line = .loose tail escapes) :
    Writer.rewind (encode (Glyph.chars d.head)).length d.toWriter =
      .ok () (d.rewind tail escapes).toWriter := by
  have hn : String.utf8EncodeChar '\n' = [Writer.newline] := by decide
  have hb : String.utf8EncodeChar '\\' = [Writer.backslash] := by decide
  have hbuf := buffer_toWriter_of_loose h
  have htake : d.toWriter.buffer.take (encode (Glyph.chars d.head)).length =
      (encode (Glyph.chars d.head)).toArray := by
    rw [hbuf]
    simp
  have htail : d.toWriter.buffer.extract ((encode (Glyph.chars d.head)).length + 1)
      d.toWriter.buffer.size = (encode tail).toArray := by
    rw [hbuf]
    have hl : (encode (Glyph.chars d.head)).length + ((encode tail).length + 1) -
        ((encode (Glyph.chars d.head)).length + 1) = (encode tail).length := by omega
    simp [hl]
  have hguard := tailGuard_toWriter h
  unfold Writer.rewind
  dsimp only
  rw [htake, htail, List.getElem?_toArray, Text.Utf8.decode_encode]
  dsimp only
  simp only [hguard]
  obtain ⟨width, head, line, segments, column, owed, keepsLines⟩ := d
  unfold rewind tailGuard
  by_cases hg : escapes = true ∧ tail.head?.any (· ∈ Writer.opensBlock)
  · simp only [if_pos hg]
    cases tail <;> simp [toWriter, text, glyphs, margin, indent, atLineStart, hn, hb]
  · simp only [if_neg hg]
    cases tail <;> simp [toWriter, text, glyphs, margin, indent, atLineStart, hn]

/-- A line that is too long is broken alike. -/
theorem settle_toWriter (d : Draft) : Writer.settle d.toWriter = .ok () d.settle.toWriter := by
  unfold Writer.settle settle
  cases h : d.line with
  | fresh | opened | solid => simp [toWriter, h]
  | loose tail escapes =>
    have hp : d.toWriter.breakPoint = some (encode (Glyph.chars d.head)).length := by
      simp [toWriter, h]
    have ha : d.toWriter.atLineStart = false := by simp [toWriter, atLineStart, h]
    rw [hp]
    dsimp only
    rw [ha, rewind_toWriter h]
    by_cases hw : 0 < d.width ∧ d.width < d.column
    · rw [if_pos hw, if_pos ⟨hw.1, hw.2, by simp⟩]
    · rw [if_neg hw, if_neg fun hc => hw ⟨hc.1, hc.2.1⟩]

/-- One character of a span is written alike, and never fails. -/
theorem put_toWriter (policy : Policy) (c : Char) (next : Option Char) (d : Draft) :
    Writer.put policy c next d.toWriter = .ok () (d.put policy c next).toWriter := by
  unfold Writer.put put
  rw [openLine_toWriter, place_toWriter policy c next (openLine_line_ne_fresh d), settle_toWriter]

/-- The characters of a span are written alike. -/
theorem putAll_toWriter (policy : Policy) (cs : List Char) (d : Draft) :
    Writer.putAll policy cs d.toWriter = .ok () (d.putAll policy cs).toWriter := by
  induction cs generalizing d with
  | nil => rfl
  | cons c rest ih =>
    have hput := put_toWriter policy c rest.head? d
    rw [Writer.putAll, putAll, ← ih]
    exact bind_of_ok hput

/-- Line ends at the end of the text are counted alike. -/
theorem trailingNewlines_toWriter (d : Draft) (limit : Nat) :
    d.toWriter.trailingNewlines limit =
      min limit (d.text.reverse.takeWhile (· == '\n')).length := by
  have hc := Text.Utf8.sameClass_newline.length_takeWhile_reverse d.text
  unfold Writer.trailingNewlines
  dsimp only [toWriter]
  have hlast : ((encode d.text).toArray.extract ((encode d.text).toArray.size - limit)
      (encode d.text).toArray.size).toList.reverse = (encode d.text).reverse.take limit := by
    rw [List.take_reverse]
    simp [List.take_of_length_le]
  rw [hlast, ← List.take_takeWhile, List.length_take, hc]

/-- The same line ends pay the breaks owed. -/
theorem breaksOwed_toWriter (d : Draft) :
    d.toWriter.breaksOwed = (encode d.breaksOwed).toArray := by
  have hb : String.utf8EncodeChar '\n' = [Writer.newline] := by decide
  unfold Writer.breaksOwed breaksOwed
  rw [trailingNewlines_toWriter]
  have hsize : d.toWriter.buffer.size = (encode d.text).length := by simp [toWriter]
  have howed : d.toWriter.owed = d.owed := rfl
  have hmargin : d.toWriter.margin = (encode d.margin).toArray := rfl
  rw [hsize, howed, hmargin]
  have hlen := Text.Utf8.length_le_length_encode d.text
  have hnil : d.text = [] → (encode d.text).length = 0 := fun h => by simp [h]
  have hone : d.text = ['\n'] → (encode d.text).length = 1 := fun h => by simp [h, hb]
  generalize (encode d.text).length = size at hlen hnil hone
  -- Only the last two characters of the text count, and they come first in `r`.
  generalize hr : d.text.reverse = r
  have ht : d.text = r.reverse := by rw [← hr, List.reverse_reverse]
  rw [ht] at hlen hnil hone ⊢
  rw [List.length_reverse] at hlen
  have hsuffix : ['\n', '\n'] <:+ r.reverse ↔ ['\n', '\n'] <+: r := by
    rw [← List.reverse_suffix]
    rfl
  simp only [hsuffix]
  cases d.owed with
  | nothing => simp [Owed.level]
  | lineEnd =>
    rcases r with _ | ⟨a, rest⟩
    · simp [Owed.level, hnil rfl]
    · rw [List.length_cons] at hlen
      have hpos : 0 < size := by omega
      by_cases ha : a = '\n'
      · simp [Owed.level, ha]
      · simp [Owed.level, ha, hpos, hb]
  | blankLine =>
    rcases r with _ | ⟨a, _ | ⟨b, rest⟩⟩
    · simp [Owed.level, hnil rfl]
    · rw [List.length_singleton] at hlen
      have hpos : 0 < size := by omega
      by_cases ha : a = '\n'
      · simp [Owed.level, ha, hone (by rw [ha]; rfl)]
      · simp [Owed.level, ha, hpos, hb]
    · rw [List.length_cons, List.length_cons] at hlen
      have hpos : 1 < size := by omega
      have hpos' : 0 < size := by omega
      have hne : ∀ x y : Char, rest.reverse ++ [x, y] ≠ ['\n'] := fun x y h => by
        simpa using congrArg List.length h
      by_cases ha : a = '\n' <;> by_cases hbl : b = '\n' <;>
        simp [Owed.level, ha, hbl, hpos, hpos', hb, hne, eq_comm (a := '\n')]

/-- The breaks owed are paid alike. -/
theorem flush_toWriter (d : Draft) : d.toWriter.flush = d.flush.toWriter := by
  unfold Writer.flush flush
  rw [breaksOwed_toWriter]
  have howed : d.toWriter.owed = d.owed := rfl
  rw [howed]
  split
  · rfl
  · simp [toWriter, endLine, Writer.startLine, atLineStart, text, glyphs, margin]

/-- Breaks are owed alike. -/
theorem owe_toWriter (owed : Owed) (d : Draft) : d.toWriter.owe owed = (d.owe owed).toWriter := by
  unfold Writer.owe owe
  have howed : d.toWriter.owed = d.owed := rfl
  rw [howed]
  split <;> rfl

/-- A span is written alike, and never fails. -/
theorem emit_toWriter (policy : Policy) (span : String) (d : Draft) :
    Writer.emit policy span d.toWriter = .ok () (d.emit policy span).toWriter := by
  show Writer.putAll (d.toWriter.effective policy) _ d.toWriter.flush = _
  rw [flush_toWriter, putAll_toWriter]
  rfl

/-- A margin is put down alike. -/
theorem pushMargin_toWriter (segment : String) (d : Draft) :
    d.toWriter.pushMargin segment = (d.pushMargin segment).toWriter := by
  simp [Writer.pushMargin, pushMargin, toWriter, margin, Text.Utf8.octets, text, glyphs,
    atLineStart]

/-- A line is begun alike. -/
theorem startLine_toWriter (d : Draft) : d.toWriter.startLine = (d.endLine []).toWriter := by
  simp [Writer.startLine, endLine, toWriter, atLineStart, text, glyphs, margin]

/-- The innermost margin is taken back alike. -/
theorem dropMargin_toWriter {d : Draft} {top : String} (h : d.segments.getLast? = some top) :
    { d.toWriter with
      segments := d.toWriter.segments.dropLast
      margin := d.toWriter.margin.take
        (d.toWriter.margin.size - (Text.Utf8.octets top).length) } = d.dropMargin.toWriter := by
  obtain ⟨outer, ho⟩ := List.getLast?_eq_some_iff.1 h
  simp [toWriter, dropMargin, margin, ho, Text.Utf8.octets, text, glyphs, atLineStart]

end Draft

end MarkdownLayout
