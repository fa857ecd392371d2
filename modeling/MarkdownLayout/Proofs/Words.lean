import MarkdownLayout.Text.Cut
import MarkdownLayout.Writer.Emit

/-!
# Words of a laid out text

The words of a text are what stands between its blanks and line ends, without the backslash that a
line needs in front of what would open a block. They can be found by cutting the text into lines and
the lines at blanks, or by reading the text once from left to right with three states; the two
agree, which is `flowWords_eq_read`.
-/

namespace MarkdownLayout

/-- Drop the backslash at the start of a line that stands before what would open a block. -/
def dropGuard : List Char → List Char
  | '\\' :: c :: rest => if c ∈ ['-', '+', '#', '='] then c :: rest else '\\' :: c :: rest
  | line => line

/-- The words of a line. -/
def lineWords (line : List Char) : List (List Char) :=
  (Text.cutAt ' ' line).filter (· ≠ [])

/-- The words of a text, line by line. -/
def flowWords (text : List Char) : List (List Char) :=
  (Text.cutAt '\n' text).flatMap fun line => lineWords (dropGuard line)

/-- Where a reader stands on a line. -/
inductive Place where
  /-- In front of its first character. -/
  | start
  /-- Behind a backslash that is its only character. -/
  | lone
  /-- Anywhere else. -/
  | within
  deriving DecidableEq, Repr

/-- What has been read of a text. -/
structure Reader where
  /-- The words that are complete. -/
  words : List (List Char) := []
  /-- The characters of a word that may go on. -/
  word : List Char := []
  /-- The place on the line. -/
  place : Place := .start
  deriving DecidableEq, Repr

/-- A list with one more word, unless that is empty. -/
def addWord (words : List (List Char)) (word : List Char) : List (List Char) :=
  if word = [] then words else words ++ [word]

namespace Reader

/-- Read one character. -/
def next (r : Reader) (c : Char) : Reader :=
  if c = '\n' then ⟨addWord r.words r.word, [], .start⟩
  else if c = ' ' then ⟨addWord r.words r.word, [], .within⟩
  else
    match r.place with
    | .start => ⟨r.words, r.word ++ [c], if c = '\\' then .lone else .within⟩
    | .lone => ⟨r.words, if c ∈ Writer.opensBlock then [c] else r.word ++ [c], .within⟩
    | .within => ⟨r.words, r.word ++ [c], .within⟩

/-- Read a text. -/
def read (text : List Char) : Reader :=
  text.foldl next {}

/-- The words of a text that ends here. -/
def finish (r : Reader) : List (List Char) :=
  addWord r.words r.word

/-- What holds of a reader at the start of a line, and of its word. -/
structure Coherent (r : Reader) : Prop where
  /-- There is no word yet at the start of a line. -/
  start : r.place = .start → r.word = []
  /-- A lone backslash is the word. -/
  lone : r.place = .lone → r.word = ['\\']
  /-- There are no blanks in a word. -/
  blank : ' ' ∉ r.word

/-- One character keeps a reader coherent. At the start of a line nothing has been read of a
word. -/
theorem Coherent.next {r : Reader} (h : r.Coherent) (c : Char) : (r.next c).Coherent := by
  have hb := h.blank
  unfold Reader.next
  split
  · exact ⟨fun _ => rfl, nofun, List.not_mem_nil⟩
  · split
    · exact ⟨fun _ => rfl, nofun, List.not_mem_nil⟩
    · rename_i hc
      have hc' : ' ' ≠ c := fun he => hc he.symm
      split
      · rename_i hp
        have hw := h.start hp
        refine ⟨?_, ?_, ?_⟩ <;> by_cases hl : c = '\\' <;> simp [hl, hw, hc']
      · refine ⟨nofun, nofun, ?_⟩
        dsimp only
        split <;> simp [hb, hc']
      · exact ⟨nofun, nofun, by simp [hb, hc']⟩

/-- So does a text, by induction on its characters. -/
theorem coherent_foldl {r : Reader} (h : r.Coherent) (cs : List Char) :
    (cs.foldl Reader.next r).Coherent := by
  induction cs generalizing r with
  | nil => exact h
  | cons c cs ih => exact ih (h.next c)

/-- A reader who begins at the start of a text is coherent. -/
theorem coherent_read (text : List Char) : (read text).Coherent := by
  have h : ({} : Reader).Coherent := ⟨fun _ => rfl, nofun, List.not_mem_nil⟩
  exact coherent_foldl h text

end Reader

namespace Text

/-- A text without the mark is not cut. -/
theorem cutAt_of_notMem {mark : Char} {cs : List Char} (h : mark ∉ cs) : cutAt mark cs = [cs] := by
  induction cs with
  | nil => rfl
  | cons c cs ih =>
    have hc : c ≠ mark := fun he => h (he ▸ List.mem_cons_self)
    rw [cutAt, if_neg hc, ih fun hm => h (List.mem_cons_of_mem c hm)]

/-- The first part of a text ends where the mark is first found. -/
theorem cutAt_append_mark {mark : Char} {cs : List Char} (h : mark ∉ cs) (rest : List Char) :
    cutAt mark (cs ++ mark :: rest) = cs :: cutAt mark rest := by
  induction cs with
  | nil => rw [List.nil_append, cutAt, if_pos rfl]
  | cons c cs ih =>
    have hc : c ≠ mark := fun he => h (he ▸ List.mem_cons_self)
    rw [List.cons_append, cutAt, if_neg hc, ih fun hm => h (List.mem_cons_of_mem c hm)]

/-- Any other character belongs to the part that it stands in front of. -/
theorem cutAt_cons_of_ne {mark c : Char} {cs part : List Char} {parts : List (List Char)}
    (hc : c ≠ mark) (h : cutAt mark cs = part :: parts) :
    cutAt mark (c :: cs) = (c :: part) :: parts := by
  rw [cutAt, if_neg hc, h]

end Text

/-- One more word without blanks. -/
theorem addWord_eq {word : List Char} (h : ' ' ∉ word) (words : List (List Char)) :
    addWord words word = words ++ lineWords word := by
  unfold addWord lineWords
  rw [Text.cutAt_of_notMem h]
  by_cases hw : word = [] <;> simp [hw]

/-- A blank divides the words in front of it from those behind it. -/
theorem lineWords_append_blank {word : List Char} (h : ' ' ∉ word) (rest : List Char) :
    lineWords (word ++ ' ' :: rest) = lineWords word ++ lineWords rest := by
  unfold lineWords
  rw [Text.cutAt_append_mark h, Text.cutAt_of_notMem h, ← List.filter_append]
  rfl

/-- A line as it counts for a reader who has read the first characters of it. -/
def Place.line : Place → List Char → List Char
  | .within, cs => cs
  | .start, cs | .lone, cs => dropGuard cs

namespace Reader

variable {r : Reader}

/-- What a reader holds of a word is not a guard that is still to be dropped. -/
theorem line_word (h : r.Coherent) : r.place.line r.word = r.word := by
  cases hp : r.place with
  | start =>
    rw [h.start hp]
    rfl
  | lone =>
    rw [h.lone hp]
    rfl
  | within => rfl

/-- Nor is it one when a blank follows. -/
theorem line_append_blank (h : r.Coherent) (rest : List Char) :
    r.place.line (r.word ++ ' ' :: rest) = r.word ++ ' ' :: rest := by
  cases hp : r.place with
  | start =>
    rw [h.start hp]
    rfl
  | lone =>
    rw [h.lone hp]
    rfl
  | within => rfl

/-- A character that belongs to a word does not change what the line counts for. -/
theorem line_next (h : r.Coherent) {c : Char} (hb : c ≠ ' ') (hn : c ≠ '\n') (rest : List Char) :
    (r.next c).words = r.words ∧
      (r.next c).place.line ((r.next c).word ++ rest) = r.place.line (r.word ++ c :: rest) := by
  unfold Reader.next
  rw [if_neg hn, if_neg hb]
  cases hp : r.place with
  | start =>
    refine ⟨rfl, ?_⟩
    rw [h.start hp]
    by_cases hc : c = '\\'
    · rw [hc]
      rfl
    · simp [hc, Place.line, dropGuard]
  | lone =>
    refine ⟨rfl, ?_⟩
    rw [h.lone hp]
    by_cases hc : c ∈ Writer.opensBlock
    · have hc' : c ∈ ['-', '+', '#', '='] := hc
      simp only [hc, if_true, Place.line, List.cons_append, List.nil_append, dropGuard, if_pos hc']
    · have hc' : c ∉ ['-', '+', '#', '='] := hc
      simp only [hc, if_false, Place.line, List.cons_append, List.nil_append, dropGuard, if_neg hc']
  | within =>
    refine ⟨rfl, ?_⟩
    simp [Place.line]

/-- Reading on from any place finds the words of the line and those of the lines after it. -/
theorem finish_foldl (h : r.Coherent) {cs first : List Char} {rest : List (List Char)}
    (hcs : Text.cutAt '\n' cs = first :: rest) :
    (cs.foldl Reader.next r).finish =
      r.words ++ (lineWords (r.place.line (r.word ++ first)) ++
        rest.flatMap fun line => lineWords (dropGuard line)) := by
  induction cs generalizing r first rest with
  | nil =>
    cases hcs
    rw [List.append_nil, line_word h]
    exact (addWord_eq h.blank r.words).trans (by simp)
  | cons c cs ih =>
    obtain ⟨first', rest', hcut⟩ := List.exists_cons_of_ne_nil (Text.cutAt_ne_nil '\n' cs)
    rw [List.foldl_cons, ih (h.next c) hcut]
    by_cases hn : c = '\n'
    · rw [hn, Text.cutAt, if_pos rfl, hcut] at hcs
      cases hcs
      have hr : r.next c = ⟨addWord r.words r.word, [], .start⟩ := by rw [Reader.next, if_pos hn]
      rw [hr, List.append_nil, line_word h, addWord_eq h.blank, List.flatMap_cons,
        List.append_assoc]
      rfl
    · rw [Text.cutAt_cons_of_ne hn hcut] at hcs
      cases hcs
      by_cases hb : c = ' '
      · have hr : r.next c = ⟨addWord r.words r.word, [], .within⟩ := by
          rw [Reader.next, if_neg hn, if_pos hb]
        rw [hr, hb, line_append_blank h, addWord_eq h.blank, lineWords_append_blank h.blank]
        simp [Place.line]
      · obtain ⟨hw, hl⟩ := line_next h hb hn first'
        rw [hw, hl]

end Reader

/-- The words of a text are those that a reader finds. -/
theorem flowWords_eq_read (text : List Char) : flowWords text = (Reader.read text).finish := by
  obtain ⟨first, rest, hcut⟩ := List.exists_cons_of_ne_nil (Text.cutAt_ne_nil '\n' text)
  have h := Reader.finish_foldl (Reader.coherent_read []) hcut
  rw [flowWords, hcut]
  exact h.symm

namespace Reader

/-- Reading a text that goes on is reading on. -/
theorem read_append (text cs : List Char) : read (text ++ cs) = cs.foldl Reader.next (read text) :=
  List.foldl_append

/-- A character of a word is added to it, unless it makes a guard of a backslash that stands
alone. -/
theorem word_next {r : Reader} (h : r.Coherent) {c : Char} (hb : c ≠ ' ') (hn : c ≠ '\n')
    (hg : r.word = ['\\'] → c ∉ Writer.opensBlock) :
    (r.next c).words = r.words ∧ (r.next c).word = r.word ++ [c] := by
  unfold Reader.next
  rw [if_neg hn, if_neg hb]
  cases hp : r.place with
  | lone => exact ⟨rfl, if_neg (hg (h.lone hp))⟩
  | _ => exact ⟨rfl, rfl⟩

/-- The word ends with a digit when the text does. -/
theorem isDigit_word (text : List Char) :
    (read text).word.getLast?.any Char.isDigit = text.getLast?.any Char.isDigit := by
  rcases List.eq_nil_or_concat text with rfl | ⟨front, c, rfl⟩
  · rfl
  · have hd : Char.isDigit ' ' = false ∧ Char.isDigit '\n' = false := by decide
    rw [List.concat_eq_append, read_append, List.foldl_cons, List.foldl_nil, List.getLast?_concat]
    unfold Reader.next
    split
    · rename_i hn
      simp [hn, hd.2]
    · split
      · rename_i hb
        simp [hb, hd.1]
      · split
        · simp
        · dsimp only
          split <;> simp
        · simp

/-- A reader of an empty text, or of one that has just ended a line, is at the start of a line. -/
theorem place_of_lineEnd {text : List Char} (h : text = [] ∨ text.getLast? = some '\n') :
    (read text).place = .start := by
  rcases List.eq_nil_or_concat text with rfl | ⟨front, c, rfl⟩
  · rfl
  · have hc : c = '\n' := by simpa using h
    rw [List.concat_eq_append, read_append, hc]
    rfl

/-- From the start of a line or from its middle, a text that opens with no guard is read alike. -/
theorem foldl_next_of_unguarded {words : List (List Char)} {cs : List Char}
    (hg : ∀ c rest, cs = '\\' :: c :: rest → c ∉ Writer.opensBlock) :
    (cs.foldl Reader.next ⟨words, [], .start⟩).words =
      (cs.foldl Reader.next ⟨words, [], .within⟩).words ∧
      (cs.foldl Reader.next ⟨words, [], .start⟩).word =
        (cs.foldl Reader.next ⟨words, [], .within⟩).word := by
  cases cs with
  | nil => exact ⟨rfl, rfl⟩
  | cons c rest =>
    by_cases hc : c = '\\'
    · subst hc
      -- Behind a backslash the two differ in their place only, and that for one more character.
      cases rest with
      | nil => exact ⟨rfl, rfl⟩
      | cons e rest =>
        have he := hg e rest rfl
        have hnext : Reader.next ⟨words, ['\\'], .lone⟩ e =
            Reader.next ⟨words, ['\\'], .within⟩ e := by
          simp [Reader.next, he]
        have hfold : List.foldl Reader.next (Reader.next ⟨words, ['\\'], .lone⟩ e) rest =
            List.foldl Reader.next (Reader.next ⟨words, ['\\'], .within⟩ e) rest := by rw [hnext]
        exact ⟨congrArg Reader.words hfold, congrArg Reader.word hfold⟩
    · have hnext : Reader.next ⟨words, [], .start⟩ c = Reader.next ⟨words, [], .within⟩ c := by
        simp [Reader.next, hc]
      rw [List.foldl_cons, List.foldl_cons, hnext]
      exact ⟨rfl, rfl⟩

/-- Nor does a guard change how the text behind it is read. -/
theorem foldl_next_guard {words : List (List Char)} {c : Char} (hc : c ∈ Writer.opensBlock)
    (rest : List Char) :
    (('\\' :: c :: rest).foldl Reader.next ⟨words, [], .start⟩) =
      ((c :: rest).foldl Reader.next ⟨words, [], .within⟩) := by
  have hnext : Reader.next ⟨words, ['\\'], .lone⟩ c = Reader.next ⟨words, [], .within⟩ c := by
    rcases Writer.eq_of_mem_opensBlock hc with rfl | rfl | rfl | rfl <;> rfl
  show List.foldl Reader.next (Reader.next ⟨words, ['\\'], .lone⟩ c) rest = _
  rw [hnext]
  rfl

end Reader

end MarkdownLayout
