import MarkdownLayout.Proofs.Draft.Step

/-!
# Well-formed writers

The fields of a writer depend on one another: the octets of the margin are those of the margins put
down, and the break point is a place in the octets of the text. The main statement is
`wellFormed_run`: whatever is done to a writer, refused steps included, the fields agree, so a line
that is broken can be broken and what is moved can be read. Margins may hold any characters, line
ends too.

All of it holds because the writer stands for a draft, where a break point cannot be anywhere but in
front of whole characters.
-/

namespace MarkdownLayout

namespace Writer

/-- The fields of a writer agree. -/
structure WellFormed (w : Writer) : Prop where
  /-- The octets that open a line are those of the margins put down. -/
  margin : w.margin.toList = w.segments.flatMap Text.Utf8.octets
  /-- The octets written are a text. -/
  buffer : ∃ cs, Text.Utf8.decode w.buffer.toList = .ok cs
  /-- No line end, one or two are owed. -/
  owed : w.owed.level ∈ [0, 1, 2]
  /-- The break point is a blank of the current line, and more than the margin stands on it. -/
  breakPoint : ∀ k, w.breakPoint = some k →
    k < w.buffer.size ∧ w.buffer[k]? = some blank ∧ newline ∉ w.buffer.toList.drop (k + 1) ∧
      w.atLineStart = false ∧ w.marginWritten = true
  /-- The escapes of the tail are known exactly when there is one. -/
  tailEscapes : w.tailEscapes.isSome ↔ ∃ k, w.breakPoint = some k ∧ k + 1 < w.buffer.size

end Writer

namespace Draft

open Text.Utf8 (encode)

/-- The break point stands behind the octets of the head. -/
theorem breakPoint_toWriter_eq_some_iff {d : Draft} {k : Nat} :
    d.toWriter.breakPoint = some k ↔
      ∃ tail escapes, d.line = .loose tail escapes ∧ (encode (Glyph.chars d.head)).length = k := by
  cases hl : d.line <;> simp [toWriter, hl]

/-- The escapes of a tail are known once it has begun. -/
theorem tailEscapes_toWriter_isSome_iff {d : Draft} :
    d.toWriter.tailEscapes.isSome ↔ ∃ tail escapes, d.line = .loose tail escapes ∧ tail ≠ [] := by
  rcases hl : d.line with _ | _ | _ | ⟨_ | ⟨t, tail⟩, escapes⟩ <;> simp [toWriter, hl]

/-- The octets from the break point on. -/
theorem drop_buffer_of_loose {d : Draft} {tail : List Char} {escapes : Bool}
    (h : d.line = .loose tail escapes) :
    d.toWriter.buffer.toList.drop (encode (Glyph.chars d.head)).length =
      Writer.blank :: encode tail := by
  rw [buffer_toWriter_of_loose h, List.drop_left]

theorem size_buffer_of_loose {d : Draft} {tail : List Char} {escapes : Bool}
    (h : d.line = .loose tail escapes) :
    d.toWriter.buffer.size =
      (encode (Glyph.chars d.head)).length + 1 + (encode tail).length := by
  rw [buffer_toWriter_of_loose h, List.size_toArray, List.length_append, List.length_cons]
  omega

/-- The octets of the margins put down are those of their characters. -/
theorem flatMap_octets_segments (d : Draft) :
    d.segments.flatMap Text.Utf8.octets = encode d.margin := by
  rw [encode, margin, List.flatMap_assoc]
  rfl

/-- A writer that stands for a draft is well formed. -/
theorem wellFormed_toWriter {d : Draft} (h : d.TailUnbroken) : d.toWriter.WellFormed := by
  refine ⟨d.flatMap_octets_segments.symm, ⟨d.text, Text.Utf8.decode_encode d.text⟩, ?_, ?_, ?_⟩
  · show d.owed.level ∈ [0, 1, 2]
    cases d.owed <;> decide
  · intro k hk
    obtain ⟨tail, escapes, hl, rfl⟩ := breakPoint_toWriter_eq_some_iff.mp hk
    have hdrop := drop_buffer_of_loose hl
    have hsize := size_buffer_of_loose hl
    refine ⟨by omega, ?_, ?_, ?_, ?_⟩
    · rw [← Array.getElem?_toList, ← List.head?_drop, hdrop]
      rfl
    · rw [← List.drop_drop, hdrop]
      exact Text.Utf8.newline_notMem_encode (h tail escapes hl)
    · simp [toWriter, atLineStart, hl]
    · simp [toWriter, hl]
  · rw [tailEscapes_toWriter_isSome_iff]
    constructor
    · rintro ⟨tail, escapes, hl, hne⟩
      have hsize := size_buffer_of_loose hl
      have hpos := List.length_pos_iff.mpr hne
      have hle := Text.Utf8.length_le_length_encode tail
      exact ⟨_, breakPoint_toWriter_eq_some_iff.mpr ⟨tail, escapes, hl, rfl⟩, by omega⟩
    · rintro ⟨k, hk, hlt⟩
      obtain ⟨tail, escapes, hl, rfl⟩ := breakPoint_toWriter_eq_some_iff.mp hk
      have hsize := size_buffer_of_loose hl
      refine ⟨tail, escapes, hl, ?_⟩
      rintro rfl
      rw [Text.Utf8.encode_nil, List.length_nil] at hsize
      omega

end Draft

/-- Whatever is done to a writer, its fields agree: the line can be broken where there is a break
point, and every span can be written. -/
theorem wellFormed_run (width : Int) (steps : List Step) :
    ∃ w, ({ width } : Writer).run steps = w ∧ w.WellFormed ∧
      (∀ k, w.breakPoint = some k → ∃ w', Writer.rewind k w = .ok () w') ∧
      ∀ policy span, ∃ w', Writer.emit policy span w = .ok () w' := by
  generalize hd : ({ width } : Draft).run steps = d
  have hrun : ({ width } : Writer).run steps = d.toWriter := by
    rw [← hd]
    exact Draft.run_toWriter steps { width }
  have hinitial : ({ width } : Draft).TailUnbroken := .of_not_loose fun _ _ hl => by cases hl
  have htail : d.TailUnbroken := by
    rw [← hd]
    exact hinitial.run steps
  refine ⟨d.toWriter, hrun, Draft.wellFormed_toWriter htail, ?_, ?_⟩
  · intro k hk
    obtain ⟨tail, escapes, hl, rfl⟩ := Draft.breakPoint_toWriter_eq_some_iff.mp hk
    exact ⟨_, Draft.rewind_toWriter hl⟩
  · exact fun policy span => ⟨_, Draft.emit_toWriter policy span d⟩

end MarkdownLayout
