import MarkdownLayout.Proofs.Draft.Script
import MarkdownLayout.Proofs.Draft.Spelling

/-!
# Lines are filled greedily

The writer puts down one character after the other, goes past the width and moves a half-written
word to a new line once it notices. The outcome is that of filling lines word by word: a word goes
on the current line when it fits there with a blank in front, and opens a new line when it does not.
The main statement is `render_words_eq_fill`.

The reason is `putAll_settle`: a line that is broken in the middle of a word and then goes on is the
line that is broken once at the end of the word. So breaks may be thought of as made between words.
-/

namespace MarkdownLayout

/-- A word: at least one character, and neither blanks nor line ends. -/
structure Word where
  /-- The characters of the word. -/
  chars : List Char
  /-- There is at least one. -/
  ne_nil : chars ≠ []
  /-- None of them is a blank or ends a line. -/
  unbroken : ∀ c ∈ chars, c ≠ ' ' ∧ c ≠ '\n'

/-- Characters with their backslashes, written after `prev`. -/
def markedAfter (prev : Option Char) : List Char → List Char
  | [] => []
  | c :: rest =>
    (if marked prev c rest.head? then ['\\', c] else [c]) ++ markedAfter (some c) rest

namespace Word

/-- The word within a line. -/
def within (word : Word) : List Char :=
  markedAfter none word.chars

/-- The word at the start of a line, where some characters would open a block. -/
def atStart (word : Word) : List Char :=
  if word.chars.head?.any (· ∈ ['-', '+', '#', '=']) then '\\' :: word.within else word.within

end Word

/-- Fill lines of the given width with words, after `line`. There is one line at width zero. -/
def fill (width : Nat) (line : List Char) : List Word → List (List Char)
  | [] => [line]
  | word :: rest =>
    if width = 0 ∨ line.length + 1 + word.within.length ≤ width then
      fill width (line ++ ' ' :: word.within) rest
    else line :: fill width word.atStart rest

/-- Words with blanks in front of them, one more than the number given for each word but the
first. -/
def spaced (lead : Nat) (first : Word) (rest : List (Nat × Word)) : List Char :=
  List.replicate lead ' ' ++ first.chars ++
    rest.flatMap fun (gap, word) => List.replicate (gap + 1) ' ' ++ word.chars

/-- A character that is no digit in front of a word counts as none. -/
theorem markedAfter_of_not_digit {prev : Option Char} (h : prev.any Char.isDigit = false)
    (cs : List Char) : markedAfter prev cs = markedAfter none cs := by
  cases cs with
  | nil => rfl
  | cons c rest => rw [markedAfter, markedAfter, marked_of_not_digit h]

/-- A word at the start of a line, by its first character. -/
theorem Word.atStart_eq {word : Word} {c : Char} {rest : List Char} (h : word.chars = c :: rest) :
    word.atStart =
      (if marked none c rest.head? || decide (c ∈ Writer.opensBlock) then ['\\', c] else [c]) ++
        markedAfter (some c) rest := by
  have hl : (c :: rest).head?.any (· ∈ ['-', '+', '#', '=']) = decide (c ∈ Writer.opensBlock) := rfl
  unfold Word.atStart Word.within
  rw [h, hl, markedAfter]
  by_cases ho : c ∈ Writer.opensBlock
  · simp [marked_of_opensBlock ho, ho]
  · simp [ho]

namespace Draft

/-- A character of running text that is no blank and no line end. -/
theorem put_glyph {c : Char} (hb : c ≠ ' ') (hn : c ≠ '\n') (next : Option Char) (d : Draft) :
    d.put .prose c next =
      (d.openLine.append true (d.openLine.spelled true c next)).settle := by
  unfold put place
  rw [if_neg fun h => hb h.1, if_neg hn]
  rfl

/-- What follows a word, if anything, is a blank, and does not count for its last character. -/
theorem marked_append {more : List Char} (hm : more.head?.all (· = ' ')) (prev : Option Char)
    (c : Char) (cs : List Char) :
    marked prev c (cs ++ more).head? = marked prev c cs.head? := by
  cases cs with
  | cons d ds => rfl
  | nil =>
    cases more with
    | nil => rfl
    | cons e es =>
      have he : e = ' ' := by simpa using hm
      rw [he]
      exact marked_blank prev c

theorem line_append_of_solid {d : Draft} (h : d.line = .solid) (escapes : Bool) (cs : List Char) :
    (d.append escapes cs).line = .solid :=
  line_append_of_not_loose (by simp [h]) escapes cs

/-- The rest of a word on a line that cannot be broken. -/
theorem putAll_of_solid {d : Draft} (h : d.line = .solid) {cs more : List Char}
    (hcs : ∀ c ∈ cs, c ≠ ' ' ∧ c ≠ '\n') (hm : more.head?.all (· = ' ')) :
    d.putAll .prose (cs ++ more) =
      (d.append true (markedAfter d.text.getLast? cs)).putAll .prose more := by
  induction cs generalizing d with
  | nil =>
    have hd : d.append true [] = d := by
      obtain ⟨width, head, line, segments, column, owed, keepsLines⟩ := d
      cases h
      simp [append]
    rw [markedAfter, hd, List.nil_append]
  | cons c rest ih =>
    have hc := hcs c List.mem_cons_self
    have hs : d.atLineStart = false := by simp [atLineStart, h]
    have hne : d.line ≠ .fresh := by simp [h]
    have hrest := fun e he => hcs e (List.mem_cons_of_mem c he)
    rw [List.cons_append, putAll, put_glyph hc.1 hc.2, openLine_of_ne_fresh hne,
      spelled_of_not_atLineStart hs, marked_append hm,
      settle_of_solid (line_append_of_solid h true _), ih (line_append_of_solid h true _) hrest,
      append_append _ (by split <;> simp), markedAfter, text_append]
    congr 3
    split <;> simp

/-- A word at the start of a line. -/
theorem putAll_of_opened {d : Draft} (h : d.line = .opened)
    (hd : d.text.getLast?.any Char.isDigit = false) (word : Word) {more : List Char}
    (hm : more.head?.all (· = ' ')) :
    d.putAll .prose (word.chars ++ more) = (d.append true word.atStart).putAll .prose more := by
  obtain ⟨c, rest, hw⟩ := List.exists_cons_of_ne_nil word.ne_nil
  have hc := word.unbroken c (by rw [hw]; exact List.mem_cons_self)
  have hrest := fun e he => word.unbroken e (by rw [hw]; exact List.mem_cons_of_mem c he)
  have hs : d.atLineStart = true := by simp [atLineStart, h]
  have hne : d.line ≠ .fresh := by simp [h]
  have hsolid := line_append_of_not_loose (d := d) (by simp [h]) true
  rw [hw, List.cons_append, putAll, put_glyph hc.1 hc.2, openLine_of_ne_fresh hne,
    settle_of_solid (hsolid _), putAll_of_solid (hsolid _) hrest hm,
    append_append _ (spelled_ne_nil _ _ _ d)]
  have hspelled : d.spelled true c (rest ++ more).head? =
      if marked none c rest.head? || decide (c ∈ Writer.opensBlock) then ['\\', c] else [c] := by
    rw [spelled, needsEscape_eq, marked_append hm, marked_of_not_digit hd, hs, Bool.and_true,
      Bool.true_and]
  have hlast : (d.append true (d.spelled true c (rest ++ more).head?)).text.getLast? = some c := by
    rw [text_append, hspelled]
    split <;> simp
  rw [hlast, hspelled, Word.atStart_eq hw]

/-- A tail that has begun is moved with what is written after it. -/
theorem append_rewind {d : Draft} {tail : List Char} (ht : tail ≠ []) (first escapes : Bool)
    (cs : List Char) :
    (d.rewind tail first).append escapes cs = d.rewind (tail ++ cs) first := by
  obtain ⟨t, tail, rfl⟩ := List.exists_cons_of_ne_nil ht
  simp [rewind, append, tailGuard]
  omega

/-- A line that is too long stays too long when more is written on it, and all of it is moved. -/
theorem settle_append {d : Draft} {tail : List Char} {first : Bool} (h : d.line = .loose tail first)
    (hw : 0 < d.width ∧ d.width < d.column) (escapes : Bool) (cs : List Char) :
    (d.append escapes cs).settle =
      d.rewind (tail ++ cs) (if tail = [] then escapes else first) := by
  obtain ⟨width, head, line, segments, column, owed, keepsLines⟩ := d
  dsimp only at h hw
  subst h
  have hw' : 0 < width ∧ width < ((column + cs.length : Nat) : Int) := by omega
  cases tail with
  | nil => exact if_pos hw'
  | cons t tail => exact if_pos hw'

/-- A character that is moved to a new line at once is spelled as at the start of a line. -/
theorem append_rewind_nil {d : Draft} (first : Bool)
    (hd : d.margin.getLast?.any Char.isDigit = false) (c : Char) (next : Option Char) :
    (d.rewind [] first).append true ((d.rewind [] first).spelled true c next) =
      d.rewind (if marked none c next then ['\\', c] else [c]) true := by
  have hs : (d.rewind [] first).atLineStart = true := by simp [rewind, atLineStart]
  have hlast : (d.rewind [] first).text.getLast?.any Char.isDigit = false := by
    have ht : (d.rewind [] first).text = (Glyph.chars d.head ++ ['\n']) ++ d.margin := by
      simp [rewind, text, glyphs, tailGuard]
    rw [ht, List.getLast?_append]
    cases hm : d.margin.getLast? with
    | none =>
      rw [Option.none_or, List.getLast?_concat]
      decide
    | some m =>
      rw [hm] at hd
      exact hd
  rw [spelled, needsEscape_eq, marked_of_not_digit hlast, hs, Bool.and_true, Bool.true_and]
  by_cases ho : c ∈ Writer.opensBlock
  · simp [marked_of_opensBlock ho, ho, rewind, append, tailGuard]
  · have hback : '\\' ∉ Writer.opensBlock := by decide
    cases marked none c next <;> simp [ho, hback, rewind, append, tailGuard]

/-- One more character of a word, on a line that is broken as soon as it is too long: it is the same
to write it first and to break the line afterwards. -/
theorem put_settle {d : Draft} {tail : List Char} {first : Bool} (h : d.line = .loose tail first)
    (hd : d.margin.getLast?.any Char.isDigit = false) {c : Char} (hb : c ≠ ' ') (hn : c ≠ '\n')
    (next : Option Char) :
    d.settle.put .prose c next =
      (d.append true (if marked d.text.getLast? c next then ['\\', c] else [c])).settle := by
  have hs : d.atLineStart = false := by simp [atLineStart, h]
  have hne : d.line ≠ .fresh := by simp [h]
  have htext := text_of_loose h
  by_cases hw : 0 < d.width ∧ d.width < d.column
  · have hd' : d.settle = d.rewind tail first := by
      unfold settle
      rw [h]
      exact if_pos hw
    rw [hd', put_glyph hb hn, settle_append h hw]
    cases tail with
    | nil =>
      have hopen : (d.rewind [] first).line = .opened := by simp [rewind]
      have hblank : d.text.getLast?.any Char.isDigit = false := by
        rw [htext, List.getLast?_concat]
        decide
      have hsolid : ∀ cs, ((d.rewind [] first).append true cs).line = .solid := fun cs => by
        simp [append, hopen]
      rw [openLine_of_ne_fresh (by simp [hopen]), settle_of_solid (hsolid _),
        append_rewind_nil first hd, marked_of_not_digit hblank, List.nil_append, if_pos rfl]
    | cons t tail =>
      have hsolid : (d.rewind (t :: tail) first).line = .solid := by simp [rewind]
      have hs' : (d.rewind (t :: tail) first).atLineStart = false := by simp [atLineStart, hsolid]
      have hlast : (d.rewind (t :: tail) first).text.getLast? = d.text.getLast? := by
        have ht : (d.rewind (t :: tail) first).text =
            Glyph.chars d.head ++ '\n' :: (d.margin ++ tailGuard first (t :: tail)) ++
              t :: tail := by
          simp [rewind, text, glyphs]
        rw [ht, htext]
        simp [List.getLast?_append, List.getLast?_cons]
      rw [openLine_of_ne_fresh (by simp [hsolid]), spelled_of_not_atLineStart hs', hlast,
        settle_of_solid (line_append_of_solid hsolid true _),
        append_rewind (by simp), if_neg (List.cons_ne_nil t tail)]
  · have hd : d.settle = d := by
      unfold settle
      rw [h]
      exact if_neg hw
    rw [hd, put_glyph hb hn, openLine_of_ne_fresh hne, spelled_of_not_atLineStart hs]

/-- A word after a blank: it is the same to write all of it first and to break the line once. -/
theorem putAll_settle {d : Draft} {tail : List Char} {first : Bool} (h : d.line = .loose tail first)
    (hd : d.margin.getLast?.any Char.isDigit = false) {cs more : List Char} (hne : cs ≠ [])
    (hcs : ∀ c ∈ cs, c ≠ ' ' ∧ c ≠ '\n') (hm : more.head?.all (· = ' ')) :
    d.settle.putAll .prose (cs ++ more) =
      (d.append true (markedAfter d.text.getLast? cs)).settle.putAll .prose more := by
  induction cs generalizing d tail first with
  | nil => exact absurd rfl hne
  | cons c rest ih =>
    have hc := hcs c List.mem_cons_self
    have hrest := fun e he => hcs e (List.mem_cons_of_mem c he)
    rw [List.cons_append, putAll, put_settle h hd hc.1 hc.2, marked_append hm, markedAfter]
    generalize hsp : (if marked d.text.getLast? c rest.head? then ['\\', c] else [c]) = sp
    have hlast : sp.getLast? = some c := by
      rw [← hsp]
      split <;> rfl
    have hsp' : sp ≠ [] := fun hn => by rw [hn] at hlast; cases hlast
    have htext : (d.append true sp).text.getLast? = some c := by
      rw [text_append, List.getLast?_append, hlast]
      rfl
    cases rest with
    | nil => rw [List.nil_append, markedAfter, List.append_nil]
    | cons e rest =>
      have hmargin := margin_of_frame (frame_append true sp d)
      rw [ih (line_append_of_loose h true sp) (by rw [hmargin]; exact hd) (by simp) hrest,
        append_append true hsp', htext]

end Draft

/-- The current line holds `line` after its margin, and the text before that is `before`. There is
room for `room` columns behind the margin, or for any number of them if `room` is zero. -/
structure Standing (room : Nat) (before line : List Char) (d : Draft) : Prop where
  /-- The text is what stands before the line and the line. -/
  text : d.text = before ++ line
  /-- The column counts the line and its margin. -/
  column : d.column = d.indent + line.length
  /-- The line is not empty and does not end with a line end. -/
  last : ∃ c, line.getLast? = some c ∧ c ≠ '\n'
  /-- Text is written on the line. -/
  begun : d.atLineStart = false
  /-- The room that the width leaves. -/
  width : (room = 0 ∧ d.width = 0) ∨ (0 < room ∧ d.width = d.indent + room)
  /-- No margin ends with a digit. -/
  margin : d.margin.getLast?.any Char.isDigit = false

/-- Backslashes stand in front of characters, so the last character stays. -/
theorem getLast?_markedAfter (prev : Option Char) (cs : List Char) :
    (markedAfter prev cs).getLast? = cs.getLast? := by
  induction cs generalizing prev with
  | nil => rfl
  | cons c rest ih =>
    have hsp : (if marked prev c rest.head? then ['\\', c] else [c]).getLast? = some c := by
      split <;> rfl
    rw [markedAfter, List.getLast?_append, ih, hsp]
    cases rest with
    | nil => rfl
    | cons e rest => simp [List.getLast?_cons]

namespace Word

/-- A word does not end a line. -/
theorem last_within (word : Word) : ∃ c, word.within.getLast? = some c ∧ c ≠ '\n' := by
  have hl := List.getLast?_eq_some_getLast word.ne_nil
  refine ⟨word.chars.getLast word.ne_nil, ?_, (word.unbroken _ (List.getLast_mem word.ne_nil)).2⟩
  rw [within, getLast?_markedAfter, hl]

/-- A word that is moved to a new line is the word at the start of a line. -/
theorem tailGuard_within (word : Word) :
    Draft.tailGuard true word.within ++ word.within = word.atStart := by
  obtain ⟨c, rest, hw⟩ := List.exists_cons_of_ne_nil word.ne_nil
  have hback : '\\' ∉ Writer.opensBlock := by decide
  rw [atStart_eq hw, within, hw, markedAfter, Draft.tailGuard]
  by_cases ho : c ∈ Writer.opensBlock
  · simp [marked_of_opensBlock ho, ho]
  · cases marked none c rest.head? <;> simp [ho, hback]

/-- Nor does a word at the start of a line. -/
theorem last_atStart (word : Word) : ∃ c, word.atStart.getLast? = some c ∧ c ≠ '\n' := by
  obtain ⟨c, hc, hn⟩ := word.last_within
  refine ⟨c, ?_, hn⟩
  rw [← tailGuard_within, List.getLast?_append, hc]
  rfl

end Word

theorem fill_ne_nil (width : Nat) (line : List Char) (words : List Word) :
    fill width line words ≠ [] := by
  induction words generalizing line with
  | nil => simp [fill]
  | cons word words ih =>
    rw [fill]
    split
    · exact ih _
    · simp

namespace Standing

variable {room : Nat} {before line : List Char} {d : Draft}

/-- The draft after a blank and a word, before the line is broken if it is too long. -/
theorem putAll_blank_word (h : Standing room before line d) (word : Word) {more : List Char}
    (hm : more.head?.all (· = ' ')) :
    d.putAll .prose (' ' :: (word.chars ++ more)) =
      (d.placeBlank.append true word.within).settle.putAll .prose more := by
  have hstart := h.begun
  have hne := Draft.line_ne_fresh_of_begun hstart
  have hline := Draft.line_placeBlank hstart
  have hlast : d.placeBlank.text.getLast?.any Char.isDigit = false := by
    rw [Draft.text_placeBlank hstart, List.getLast?_concat]
    decide
  have hput : d.put .prose ' ' (word.chars ++ more).head? = d.placeBlank.settle := by
    rw [Draft.put, Draft.openLine_of_ne_fresh hne]
    rfl
  have hmargin : d.placeBlank.margin.getLast?.any Char.isDigit = false := by
    rw [Draft.margin_of_frame (Draft.frame_placeBlank d)]
    exact h.margin
  rw [Draft.putAll, hput, Draft.putAll_settle hline hmargin word.ne_nil word.unbroken hm,
    markedAfter_of_not_digit hlast]
  rfl

/-- The line is broken exactly when the word does not fit. -/
theorem settle_word (h : Standing room before line d) (word : Word) :
    (d.placeBlank.append true word.within).settle =
      if room = 0 ∨ line.length + 1 + word.within.length ≤ room then
        d.placeBlank.append true word.within
      else ({ d with head := d.glyphs } : Draft).rewind word.within true := by
  have hcolumn := h.column
  rw [Draft.placeBlank_of_begun h.begun]
  split
  · rename_i hfit
    refine if_neg fun hw => ?_
    dsimp only [Draft.append] at hw
    rcases h.width with ⟨hr, hwidth⟩ | ⟨hr, hwidth⟩ <;> omega
  · rename_i hfit
    refine if_pos ?_
    dsimp only [Draft.append]
    rcases h.width with ⟨hr, hwidth⟩ | ⟨hr, hwidth⟩ <;> omega

/-- A word that fits stays on the line. -/
theorem stay (h : Standing room before line d) (word : Word) :
    Standing room before (line ++ ' ' :: word.within) (d.placeBlank.append true word.within) := by
  have hframe : (d.placeBlank.append true word.within).frame = d.frame := by simp
  obtain ⟨c, hc, hn⟩ := word.last_within
  refine ⟨?_, ?_, ⟨c, ?_, hn⟩, ?_, ?_, ?_⟩
  · rw [Draft.text_append, Draft.text_placeBlank h.begun, h.text]
    simp
  · rw [Draft.column_append, Draft.indent_of_frame hframe, Draft.placeBlank_of_begun h.begun]
    simp [h.column]
    omega
  · simp [List.getLast?_append, List.getLast?_cons, hc]
  · exact Draft.atLineStart_append _ _ _
  · rw [Draft.indent_of_frame hframe, Draft.width_of_frame hframe]
    exact h.width
  · rw [Draft.margin_of_frame hframe]
    exact h.margin

/-- A word that does not fit opens a new line. -/
theorem move (h : Standing room before line d) (word : Word) :
    Standing room (before ++ line ++ '\n' :: d.margin) word.atStart
      (({ d with head := d.glyphs } : Draft).rewind word.within true) := by
  have hguard := word.tailGuard_within
  have hne : word.within ≠ [] := by
    obtain ⟨c, hc, _⟩ := word.last_within
    exact fun hn => by rw [hn] at hc; cases hc
  refine ⟨?_, ?_, word.last_atStart, ?_, h.width, h.margin⟩
  · have ht : Glyph.chars d.glyphs = before ++ line := h.text
    rw [Draft.text_rewind, hguard, ht, List.append_assoc (before ++ line)]
    rfl
  · rw [← hguard, List.length_append]
    dsimp only [Draft.rewind]
    rw [Nat.add_assoc]
    rfl
  · simp [Draft.rewind, Draft.atLineStart, hne]

/-- All words after the first fill lines. -/
theorem fill (h : Standing room before line d) (words : List Word) :
    ∃ before' line', Standing room before' line'
        (d.putAll .prose (words.flatMap fun word => ' ' :: word.chars)) ∧
      before' ++ line' =
        before ++ List.intercalate ('\n' :: d.margin) (fill room line words) := by
  induction words generalizing before line d with
  | nil => exact ⟨before, line, h, by simp [MarkdownLayout.fill]⟩
  | cons word words ih =>
    have hm : (words.flatMap fun word => ' ' :: word.chars).head?.all (· = ' ') := by
      cases words <;> simp
    rw [List.flatMap_cons, List.cons_append, h.putAll_blank_word word hm, h.settle_word word,
      MarkdownLayout.fill]
    split
    · obtain ⟨before', line', hs, he⟩ := ih (h.stay word)
      refine ⟨before', line', hs, ?_⟩
      have hframe : (d.placeBlank.append true word.within).frame = d.frame := by simp
      rw [he, Draft.margin_of_frame hframe]
    · obtain ⟨before', line', hs, he⟩ := ih (h.move word)
      refine ⟨before', line', hs, ?_⟩
      have hmargin : (({ d with head := d.glyphs } : Draft).rewind word.within true).margin =
          d.margin :=
        rfl
      rw [he, hmargin, List.intercalate_cons_of_ne_nil (fill_ne_nil room word.atStart words)]
      simp

end Standing

theorem squeezeAfter_unbroken {cs : List Char} (hne : cs ≠ []) (hcs : ∀ c ∈ cs, c ≠ ' ')
    (after : Bool) (more : List Char) :
    Writer.squeezeAfter after (cs ++ more) = cs ++ Writer.squeezeAfter false more := by
  induction cs generalizing after with
  | nil => exact absurd rfl hne
  | cons c rest ih =>
    rw [List.cons_append, Writer.squeezeAfter, if_neg (hcs c List.mem_cons_self)]
    cases rest with
    | nil => rfl
    | cons e rest =>
      rw [ih (by simp) (fun e he => hcs e (List.mem_cons_of_mem c he))]
      rfl

theorem squeezeAfter_replicate (count : Nat) (after : Bool) (more : List Char) :
    Writer.squeezeAfter after (List.replicate count ' ' ++ more) =
      if count = 0 then Writer.squeezeAfter after more
      else if after then Writer.squeezeAfter true more
      else ' ' :: Writer.squeezeAfter true more := by
  induction count generalizing after with
  | zero => rfl
  | succ count ih =>
    rw [List.replicate_succ, List.cons_append, Writer.squeezeAfter, if_pos rfl, ih]
    cases after <;> simp

/-- Of the blanks in front of a word one is written. -/
theorem squeeze_spaced (lead : Nat) (first : Word) (rest : List (Nat × Word)) :
    Writer.squeeze (spaced lead first rest) =
      (if lead = 0 then [] else [' ']) ++ (first.chars ++
        (rest.map Prod.snd).flatMap fun word => ' ' :: word.chars) := by
  have hrest : Writer.squeezeAfter false
      (rest.flatMap fun (gap, word) => List.replicate (gap + 1) ' ' ++ word.chars) =
        (rest.map Prod.snd).flatMap fun word => ' ' :: word.chars := by
    induction rest with
    | nil => rfl
    | cons item rest ih =>
      have hword := fun c hc => (item.2.unbroken c hc).1
      rw [List.flatMap_cons, List.append_assoc, squeezeAfter_replicate, if_neg (by omega),
        if_neg (by simp), squeezeAfter_unbroken item.2.ne_nil hword, ih]
      rfl
  have hfirst := fun c hc => (first.unbroken c hc).1
  rw [Writer.squeeze, spaced, List.append_assoc, squeezeAfter_replicate]
  simp only [squeezeAfter_unbroken first.ne_nil hfirst, hrest]
  split <;> simp

/-- The first word of a text, whether or not there are blanks in front of it. -/
theorem Standing.first (width : Nat) (blank : Bool) (word : Word) {more : List Char}
    (hm : more.head?.all (· = ' ')) :
    ∃ d, ({ width } : Draft).putAll .prose ((if blank then [' '] else []) ++ (word.chars ++ more)) =
        d.putAll .prose more ∧ Standing width [] word.atStart d ∧ d.segments = [] := by
  have hopen : ({ width } : Draft).openLine.line = .opened := rfl
  have hchars : word.chars ++ more ≠ [] := by simp [word.ne_nil]
  have hblank : ({ width } : Draft).put .prose ' ' (word.chars ++ more).head? =
      ({ width } : Draft).openLine := rfl
  refine ⟨({ width } : Draft).openLine.append true word.atStart, ?_, ?_, rfl⟩
  · rw [← Draft.putAll_of_opened hopen rfl word hm]
    cases blank with
    | false => exact (Draft.putAll_openLine hchars .prose _).symm
    | true =>
      show (({ width } : Draft).put .prose ' ' (word.chars ++ more).head?).putAll .prose _ = _
      rw [hblank]
      rfl
  · refine ⟨?_, ?_, word.last_atStart, rfl, ?_, rfl⟩
    · rw [Draft.text_append]
      rfl
    · rw [Draft.column_append]
      rfl
    · by_cases hw : width = 0
      · exact .inl ⟨hw, by simp [hw, Draft.openLine, Draft.append]⟩
      · exact .inr ⟨by omega, by simp [Draft.openLine, Draft.append, Draft.indent, Draft.margin]⟩

/-- A paragraph of words is filled greedily: a word goes on the line that it fits on with a blank in
front, and opens the next line otherwise. At width zero there is one line. -/
theorem render_words_eq_fill (settings : RenderSettings) (lead : Nat) (first : Word)
    (rest : List (Nat × Word)) :
    (Node.branch .document [.branch .paragraph
        [.leaf (.text (String.ofList (spaced lead first rest)))]]).render settings =
      .ok (String.ofList (List.intercalate ['\n']
        (fill settings.width first.atStart (rest.map Prod.snd)) ++ ['\n', '\n'])) := by
  have hm : ((rest.map Prod.snd).flatMap fun word => ' ' :: word.chars).head?.all (· = ' ') := by
    cases rest <;> simp
  obtain ⟨d, hd, hfirst, hs⟩ := Standing.first settings.width (lead != 0) first hm
  obtain ⟨before, line, hfilled, htext⟩ := hfirst.fill (rest.map Prod.snd)
  have hdraft : draftOfVisits settings (Node.visitsUnder .paragraph 0
      [.leaf (.text (String.ofList (spaced lead first rest)))]) { width := settings.width } =
        .ok (d.putAll .prose ((rest.map Prod.snd).flatMap fun word => ' ' :: word.chars)) := by
    show Except.ok (({ width := settings.width } : Draft).putAll .prose
      (Writer.squeeze (String.ofList (spaced lead first rest)).toList)) = _
    rw [← hd, String.toList_ofList, squeeze_spaced]
    by_cases hl : lead = 0 <;> simp [hl]
  have hsegments : (d.putAll .prose
      ((rest.map Prod.snd).flatMap fun word => ' ' :: word.chars)).segments = [] := by
    rw [Draft.segments_of_frame (Draft.frame_putAll _ _ _), hs]
  have hmargin : d.margin = [] := by simp [Draft.margin, hs]
  obtain ⟨hclosed, count, _, hend, _, hcount⟩ := Draft.text_conclude hsegments
  obtain ⟨c, hc, hn⟩ := hfilled.last
  have hlast : (before ++ line).getLast? = some c := by simp [List.getLast?_append, hc]
  have htwo : count = 2 := by
    rw [hfilled.text] at hcount
    refine hcount (fun hnil => ?_) (fun hnl => hn ?_)
    · rw [hnil] at hlast
      cases hlast
    · rw [hlast] at hnl
      exact Option.some.inj hnl
  rw [Node.render_paragraph hdraft hclosed, hend, htwo, hfilled.text, htext, hmargin]
  rfl

end MarkdownLayout
