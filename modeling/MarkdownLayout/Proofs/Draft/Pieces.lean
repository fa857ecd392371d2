import MarkdownLayout.Proofs.Draft.Spelling

/-!
# Pieces of a text

A text is read from left to right in pieces: a backslash takes along the character behind it, and
every other character is a piece of its own. Text with escapes is also written in pieces, as long as
there is no margin. Each character adds one, unless it is a blank at the start of a line. A break
puts a line end in the place of a blank, and may add a backslash to the piece behind it; it never
cuts a piece in two.

`Piece.Written` says so about the pieces alone, and `Draft.SpelledBy.putAll` is the statement that
what a draft does is an instance of it. What is to be known of a text with escapes follows by
induction on `Piece.Written`.
-/

namespace MarkdownLayout

/-- A character of a text, with or without a backslash in front. -/
structure Piece where
  /-- The character. -/
  char : Char
  /-- Whether a backslash takes it along. -/
  escaped : Bool
  deriving DecidableEq, Repr

namespace Piece

/-- A blank. -/
def blank : Piece := ⟨' ', false⟩

/-- A line end. -/
def newline : Piece := ⟨'\n', false⟩

/-- The pieces of a text. A backslash at its end is a piece of its own. -/
def read : List Char → List Piece
  | [] => []
  | '\\' :: c :: rest => ⟨c, true⟩ :: read rest
  | c :: rest => ⟨c, false⟩ :: read rest

/-- A piece as it is written. -/
def spell (p : Piece) : List Char :=
  if p.escaped then ['\\', p.char] else [p.char]

/-- Pieces as they are written. -/
def spellAll (ps : List Piece) : List Char :=
  ps.flatMap spell

/-- The characters of pieces, without the backslashes in front of them. -/
def chars (ps : List Piece) : List Char :=
  ps.map Piece.char

@[simp] theorem spellAll_nil : spellAll [] = [] := rfl

@[simp] theorem spellAll_cons (p : Piece) (ps : List Piece) :
    spellAll (p :: ps) = p.spell ++ spellAll ps := rfl

/-- Pieces are written one after the other, and none depends on the others. -/
@[simp] theorem spellAll_append (ps qs : List Piece) :
    spellAll (ps ++ qs) = spellAll ps ++ spellAll qs :=
  List.flatMap_append

@[simp] theorem chars_nil : chars [] = [] := rfl

@[simp] theorem chars_cons (p : Piece) (ps : List Piece) :
    chars (p :: ps) = p.char :: chars ps := rfl

/-- The characters of two lists of pieces are those of the first and then those of the second. -/
@[simp] theorem chars_append (ps qs : List Piece) : chars (ps ++ qs) = chars ps ++ chars qs :=
  List.map_append

/-- Every piece takes at least a character. -/
theorem spell_ne_nil (p : Piece) : p.spell ≠ [] := by
  unfold spell
  split <;> simp

/-- Only a text without pieces is empty. -/
theorem spellAll_eq_nil_iff {ps : List Piece} : spellAll ps = [] ↔ ps = [] := by
  cases ps with
  | nil => simp
  | cons p ps => simp [spell_ne_nil]

/-- The last character of a text is that of its last piece. -/
theorem getLast?_spellAll (ps : List Piece) : (spellAll ps).getLast? = (chars ps).getLast? := by
  obtain rfl | ⟨ps, p, rfl⟩ := ps.eq_nil_or_concat
  · rfl
  · have hlast : p.spell.getLast? = some p.char := by
      unfold spell
      split <;> rfl
    rw [List.concat_eq_append, spellAll_append, chars_append, spellAll_cons, spellAll_nil,
      List.append_nil, List.getLast?_append, hlast]
    exact List.getLast?_concat.symm

/-- Pieces are read as they were written, unless a backslash is written as a piece of its own. -/
theorem read_spellAll {ps : List Piece} (h : ∀ p ∈ ps, p.char = '\\' → p.escaped = true) :
    read (spellAll ps) = ps := by
  induction ps with
  | nil => rfl
  | cons p ps ih =>
    obtain ⟨hp, hps⟩ := List.forall_mem_cons.mp h
    obtain ⟨c, escaped⟩ := p
    cases escaped with
    | true => exact congrArg (⟨c, true⟩ :: ·) (ih hps)
    | false =>
      have hc : c ≠ '\\' := fun he => absurd (hp he) (by simp)
      have hread : read (c :: spellAll ps) = ⟨c, false⟩ :: read (spellAll ps) := by
        rw [read]
        rintro d rest rfl
        exact absurd rfl hc
      exact hread.trans (congrArg (⟨c, false⟩ :: ·) (ih hps))

/-- Whether the next piece begins a line. -/
def atStart (ps : List Piece) : Bool :=
  (chars ps).getLast?.all (· = '\n')

/-- Whether a character of text with escapes gets a backslash behind some pieces. -/
def needsEscape (ps : List Piece) (c : Char) (next : Option Char) : Bool :=
  marked (chars ps).getLast? c next || (decide (c ∈ Writer.opensBlock) && atStart ps)

/-- Pieces that are moved to a new line: the first of them gets a backslash if it would open a
block. -/
def guard : List Piece → List Piece
  | [] => []
  | p :: rest => ⟨p.char, p.escaped || decide (p.char ∈ Writer.opensBlock)⟩ :: rest

/-- A backslash in front of the first piece does not change what is read. -/
@[simp] theorem chars_guard (ps : List Piece) : chars (guard ps) = chars ps := by
  cases ps <;> rfl

/-- The backslash in front of a tail with escapes is that of its first piece. -/
theorem tailGuard_append_spellAll {first : Bool} {ps : List Piece} (h : ps ≠ [] → first = true) :
    Draft.tailGuard first (spellAll ps) ++ spellAll ps = spellAll (guard ps) := by
  cases ps with
  | nil => simp [Draft.tailGuard, guard]
  | cons p rest =>
    obtain ⟨c, escaped⟩ := p
    have hback : '\\' ∉ Writer.opensBlock := by decide
    rw [h (List.cons_ne_nil _ rest)]
    cases escaped with
    | true => simp [Draft.tailGuard, guard, spell, hback]
    | false => by_cases ho : c ∈ Writer.opensBlock <;> simp [Draft.tailGuard, guard, spell, ho]

/-- A line is left as it is, or it is broken at a blank. -/
inductive Broken : List Piece → List Piece → Prop
  /-- Nothing happens. -/
  | kept (ps : List Piece) : Broken ps ps
  /-- What follows a blank is moved to a new line. -/
  | moved (before after : List Piece) :
    Broken (before ++ blank :: after) (before ++ newline :: guard after)

/-- What the characters of a text with escapes make of the pieces that are there. -/
inductive Written : List Piece → List Char → List Piece → Prop
  /-- There are no more characters. -/
  | done (ps : List Piece) : Written ps [] ps
  /-- A blank at the start of a line is dropped. -/
  | dropped {ps rs : List Piece} {cs : List Char} : atStart ps = true → Written ps cs rs →
    Written ps (' ' :: cs) rs
  /-- Any other character is written, and the line may be broken then. -/
  | placed {ps qs rs : List Piece} {c : Char} {cs : List Char} :
    Broken (ps ++ [⟨c, needsEscape ps c cs.head?⟩]) qs → Written qs cs rs → Written ps (c :: cs) rs

end Piece

namespace Draft

open Piece (spellAll)

/-- The text of a draft without margins is made of pieces. If the line can be broken, then at a
piece that is a blank, and what stands behind it has escapes. -/
structure SpelledBy (ps : List Piece) (d : Draft) : Prop where
  /-- There are no margins. -/
  segments : d.segments = []
  /-- The text is made of the pieces. -/
  text : d.text = spellAll ps
  /-- The line has begun when the last piece ends no line. -/
  start : d.atLineStart = Piece.atStart ps
  /-- A break point is a blank among the pieces. -/
  loose : ∀ tail first, d.line = .loose tail first → ∃ before after,
    ps = before ++ Piece.blank :: after ∧ Glyph.chars d.head = spellAll before ∧
      tail = spellAll after ∧ (after ≠ [] → first = true)

namespace SpelledBy

variable {ps : List Piece} {d : Draft}

/-- A draft that pieces spell has no margins. -/
theorem margin (h : d.SpelledBy ps) : d.margin = [] := by
  rw [Draft.margin, h.segments]
  rfl

/-- A new draft is spelled by no pieces. -/
theorem initial (width : Int) : ({ width } : Draft).SpelledBy [] :=
  ⟨rfl, rfl, rfl, fun _ _ hl => by cases hl⟩

/-- The margin of a line is empty, so a line is opened without a piece. -/
theorem openLine (h : d.SpelledBy ps) : d.openLine.SpelledBy ps := by
  by_cases hf : d.line = .fresh
  · have hline : d.openLine.line = .opened := by simp [Draft.openLine, hf]
    refine ⟨(segments_of_frame (frame_openLine d)).trans h.segments, ?_, ?_, ?_⟩
    · rw [text_openLine_of_fresh hf, h.margin, List.append_nil, h.text]
    · rw [← h.start]
      simp [atLineStart, hline, hf]
    · simp [hline]
  · rw [openLine_of_ne_fresh hf]
    exact h

/-- A character is spelled by its piece. -/
theorem spelled_eq (h : d.SpelledBy ps) (c : Char) (next : Option Char) :
    d.spelled true c next = (⟨c, Piece.needsEscape ps c next⟩ : Piece).spell := by
  rw [spelled, Bool.true_and, needsEscape_eq, h.text, Piece.getLast?_spellAll, h.start]
  rfl

/-- A blank is the last piece and the break point, unless it is dropped. -/
theorem placeBlank (h : d.SpelledBy ps) (hs : d.atLineStart = false) :
    d.placeBlank.SpelledBy (ps ++ [Piece.blank]) := by
  have hline := line_placeBlank hs
  refine ⟨(segments_of_frame (frame_placeBlank d)).trans h.segments, ?_, ?_, ?_⟩
  · rw [text_placeBlank hs, h.text, Piece.spellAll_append]
    rfl
  · simp [atLineStart, hline, Piece.atStart, Piece.blank]
  · intro tail first hl
    rw [hline] at hl
    cases hl
    refine ⟨ps, [], rfl, ?_, rfl, fun hne => absurd rfl hne⟩
    rw [placeBlank_of_begun hs]
    exact h.text

/-- A line end is a piece of its own. -/
theorem endLine (h : d.SpelledBy ps) : (d.endLine ['\n']).SpelledBy (ps ++ [Piece.newline]) := by
  refine ⟨h.segments, ?_, ?_, fun _ _ hl => by cases hl⟩
  · rw [text_endLine, h.text, Piece.spellAll_append]
    rfl
  · simp [atLineStart, Draft.endLine, Piece.atStart, Piece.newline]

/-- A character with the backslash that it needs is one piece, in front of the break point or behind
it. -/
theorem append (h : d.SpelledBy ps) {p : Piece} (hp : p.char ≠ '\n') :
    (d.append true p.spell).SpelledBy (ps ++ [p]) := by
  refine ⟨(segments_of_frame (frame_append true p.spell d)).trans h.segments, ?_, ?_, ?_⟩
  · rw [text_append, h.text, Piece.spellAll_append, Piece.spellAll_cons, Piece.spellAll_nil,
      List.append_nil]
  · rw [atLineStart_append]
    simp [Piece.atStart, hp]
  · intro tail' first' hl'
    rcases line_append_cases true p.spell d with hs | ⟨tail, first, hl, hs⟩
    · rw [hs] at hl'
      cases hl'
    · rw [hs] at hl'
      cases hl'
      obtain ⟨before, after, hps, hhead, htail, hfirst⟩ := h.loose tail first hl
      have hkept : (d.append true p.spell).head = d.head := by
        cases tail <;> simp [Draft.append, hl]
      refine ⟨before, after ++ [p], by simp [hps], by rw [hkept, hhead], by simp [htail],
        fun _ => ?_⟩
      split
      · rfl
      · rename_i hne
        refine hfirst fun hnil => hne ?_
        rw [htail, hnil, Piece.spellAll_nil]

/-- A break is one of the pieces. -/
theorem settle (h : d.SpelledBy ps) : ∃ qs, Piece.Broken ps qs ∧ d.settle.SpelledBy qs := by
  rcases settle_cases d with ⟨tail, first, hl, hs⟩ | ⟨hs, _⟩ <;> rw [hs]
  · obtain ⟨before, after, rfl, hhead, rfl, hfirst⟩ := h.loose tail first hl
    have hbegun : Piece.atStart (before ++ Piece.blank :: after) = false := by
      rw [← h.start]
      simp [atLineStart, hl]
    refine ⟨before ++ Piece.newline :: Piece.guard after, .moved before after, h.segments, ?_, ?_,
      fun tail' first' hl' => absurd hl' (line_rewind_ne_loose _ _ _ _ _)⟩
    · rw [text_rewind, h.margin, List.nil_append, Piece.tailGuard_append_spellAll hfirst, hhead,
        Piece.spellAll_append]
      rfl
    · rcases line_rewind_cases (spellAll after) first d with ⟨hnil, hline⟩ | ⟨hne, hline⟩
      · rw [Piece.spellAll_eq_nil_iff] at hnil
        rw [atLineStart, hline, hnil]
        simp [Piece.atStart, Piece.guard, Piece.newline]
      · -- The last piece has been moved as it was, or with a backslash.
        rw [ne_eq, Piece.spellAll_eq_nil_iff] at hne
        obtain ⟨front, last, rfl⟩ := after.eq_nil_or_concat.resolve_left hne
        have hlast : Piece.atStart (before ++ Piece.newline :: Piece.guard (front.concat last)) =
            Piece.atStart (before ++ Piece.blank :: front.concat last) := by
          simp [Piece.atStart, List.getLast?_append, List.getLast?_cons]
        rw [hlast, hbegun, atLineStart, hline]
  · exact ⟨ps, .kept ps, h⟩

/-- What one character does. -/
theorem put (h : d.SpelledBy ps) {policy : Policy} (hp : policy.escapes = true) (c : Char)
    (next : Option Char) :
    (c = ' ' ∧ Piece.atStart ps = true ∧ (d.put policy c next).SpelledBy ps) ∨
      ∃ qs, Piece.Broken (ps ++ [⟨c, Piece.needsEscape ps c next⟩]) qs ∧
        (d.put policy c next).SpelledBy qs := by
  have ho := h.openLine
  have hplain : ∀ c ∈ [' ', '\n'], Piece.needsEscape ps c next = false := by
    intro c hc
    simp only [List.mem_cons, List.not_mem_nil, or_false] at hc
    rcases hc with rfl | rfl <;> simp [Piece.needsEscape, marked, Writer.opensBlock]
  have hput : d.put policy c next = (d.openLine.place policy c next).settle := rfl
  rw [hput]
  rcases place_cases policy c next d.openLine with ⟨rfl, hplace⟩ | ⟨rfl, hplace⟩ | ⟨hc, hplace⟩ <;>
    rw [hplace]
  · cases hs : d.openLine.atLineStart with
    | true =>
      have hsettle : d.openLine.settle = d.openLine := by
        rcases settle_cases d.openLine with ⟨tail, first, hl, _⟩ | ⟨hkept, _⟩
        · simp [atLineStart, hl] at hs
        · exact hkept
      rw [placeBlank_of_atLineStart hs, hsettle]
      exact .inl ⟨rfl, ho.start ▸ hs, ho⟩
    | false =>
      rw [hplain ' ' (by simp)]
      exact .inr (ho.placeBlank hs).settle
  · rw [hplain '\n' (by simp)]
    exact .inr ho.endLine.settle
  · rw [hp, ho.spelled_eq]
    exact .inr (ho.append hc).settle

/-- What characters do is something that can be written. -/
theorem putAll (h : d.SpelledBy ps) {policy : Policy} (hp : policy.escapes = true)
    (cs : List Char) : ∃ rs, Piece.Written ps cs rs ∧ (d.putAll policy cs).SpelledBy rs := by
  induction cs generalizing d ps with
  | nil => exact ⟨ps, .done ps, h⟩
  | cons c rest ih =>
    rcases h.put hp c rest.head? with ⟨rfl, hstart, hkept⟩ | ⟨qs, hbroken, hqs⟩
    · obtain ⟨rs, hwritten, hrs⟩ := ih hkept
      exact ⟨rs, .dropped hstart hwritten, hrs⟩
    · obtain ⟨rs, hwritten, hrs⟩ := ih hqs
      exact ⟨rs, .placed hbroken hwritten, hrs⟩

end SpelledBy

end Draft

end MarkdownLayout
