import Mathlib.Data.List.Chain
import MarkdownLayout.Proofs.Draft.Pieces
import MarkdownLayout.Proofs.Draft.Script

/-!
# Running text

A paragraph of text is written with backslashes, blanks are dropped and lines are broken. Two things
are to be known of the outcome. Whoever takes the backslashes away again finds the words of the
text, `words_read_render`. And the text stays text: it holds nothing that would be taken for markup,
`inert_render`.

Both are about the pieces that are written, by induction on `Piece.Written`. The second one needs
that two neighbours stay apart when a line is broken between them, `Piece.Apart`.
-/

namespace MarkdownLayout

/-- Whether a character stands between words. -/
def separatesWords (c : Char) : Bool :=
  c = ' ' || c = '\n'

/-- The words of a text: what stands between blanks and line ends, as far as it is not empty. -/
def wordsOf (cs : List Char) : List (List Char) :=
  (cs.splitOnP separatesWords).filter (· ≠ [])

@[simp] theorem wordsOf_nil : wordsOf [] = [] := by
  simp [wordsOf]

/-- Words are counted on both sides of what separates them. -/
theorem wordsOf_append_cons {c : Char} (hc : separatesWords c = true) (front back : List Char) :
    wordsOf (front ++ c :: back) = wordsOf front ++ wordsOf back := by
  rw [wordsOf, List.splitOnP_append_cons front back hc, List.filter_append]
  rfl

theorem wordsOf_cons {c : Char} (hc : separatesWords c = true) (back : List Char) :
    wordsOf (c :: back) = wordsOf back := by
  simpa using wordsOf_append_cons hc [] back

/-- It does not matter what separates words, nor how often it stands there. -/
theorem wordsOf_append_cons_cons {c d : Char} (hc : separatesWords c = true)
    (hd : separatesWords d = true) (front back : List Char) :
    wordsOf (front ++ c :: d :: back) = wordsOf (front ++ c :: back) := by
  rw [wordsOf_append_cons hc, wordsOf_append_cons hc, wordsOf_cons hd]

theorem wordsOf_append_replicate (front : List Char) (count : Nat) :
    wordsOf (front ++ List.replicate count '\n') = wordsOf front := by
  induction count with
  | zero => simp
  | succ count ih =>
    rw [List.replicate_succ', ← List.append_assoc, wordsOf_append_cons (by decide), ih, wordsOf_nil,
      List.append_nil]

/-- The blanks that are dropped from a run separate nothing that is not separated without them. -/
theorem wordsOf_append_squeezeAfter {after : Bool} {front : List Char}
    (h : after = true → front.getLast? = some ' ') (cs : List Char) :
    wordsOf (front ++ Writer.squeezeAfter after cs) = wordsOf (front ++ cs) := by
  induction cs generalizing after front with
  | nil => rfl
  | cons c rest ih =>
    have hstep : wordsOf (front ++ c :: Writer.squeezeAfter (decide (c = ' ')) rest) =
        wordsOf (front ++ c :: rest) := by
      have hc : decide (c = ' ') = true → (front ++ [c]).getLast? = some ' ' := by simp
      simpa using ih hc
    rw [Writer.squeezeAfter]
    by_cases hc : c = ' '
    · subst hc
      cases after with
      | false => simpa using hstep
      | true =>
        obtain ⟨front, rfl⟩ := List.getLast?_eq_some_iff.mp (h rfl)
        rw [if_pos rfl, if_pos rfl, ih h, List.append_assoc, List.append_assoc]
        exact (wordsOf_append_cons_cons (by decide) (by decide) front rest).symm
    · simpa [hc] using hstep

namespace Piece

/-- A break separates the words that the blank separated. -/
theorem Broken.wordsOf_eq {ps qs : List Piece} (h : Broken ps qs) (cs : List Char) :
    wordsOf (chars qs ++ cs) = wordsOf (chars ps ++ cs) := by
  cases h with
  | kept => rfl
  | moved before after =>
    rw [chars_append, chars_append, chars_cons, chars_cons, chars_guard, List.append_assoc,
      List.append_assoc, List.cons_append, List.cons_append, wordsOf_append_cons (by decide),
      wordsOf_append_cons (by decide)]

/-- The words that are written are those of the text. -/
theorem Written.wordsOf_eq {ps rs : List Piece} {cs : List Char} (h : Written ps cs rs) :
    wordsOf (chars rs) = wordsOf (chars ps ++ cs) := by
  induction h with
  | done ps => rw [List.append_nil]
  | @dropped ps rs cs hstart _ ih =>
    rw [ih]
    rcases (chars ps).eq_nil_or_concat with hnil | ⟨front, last, hlast⟩
    · rw [hnil, List.nil_append, List.nil_append, wordsOf_cons (by decide)]
    · have hnewline : last = '\n' := by simpa [atStart, hlast] using hstart
      rw [hlast, hnewline, List.concat_eq_append, List.append_assoc, List.append_assoc]
      exact (wordsOf_append_cons_cons (by decide) (by decide) front cs).symm
  | @placed ps qs rs c cs hbroken _ ih =>
    rw [ih, hbroken.wordsOf_eq, chars_append, List.append_assoc]
    rfl

/-- Two neighbours are no markup: what could be some has a backslash. -/
structure Apart (p q : Piece) : Prop where
  /-- The second one is no sign by itself. -/
  sign : q.escaped = false → q.char ∉ Writer.alwaysEscaped
  /-- It opens no block. -/
  start : q.escaped = false → q.char ∈ Writer.opensBlock → p.char ≠ '\n'
  /-- The two do not end a number. -/
  number : q.escaped = false → q.char ∈ Writer.endsNumber → p.char.isDigit = false
  /-- They do not begin an entity. -/
  entity : p = ⟨'&', false⟩ → q.escaped = false → q.char.isAlpha = false

namespace Apart

variable {p q : Piece}

/-- A line end may stand behind anything. -/
theorem to_newline (p : Piece) : Apart p newline := by
  refine ⟨fun _ => by decide, fun _ h => ?_, fun _ h => ?_, fun _ _ => by decide⟩
  · exact absurd h (by decide)
  · exact absurd h (by decide)

/-- A backslash in front of the first of two does no harm. -/
theorem of_escape {c : Char} {escaped : Bool} (h : Apart ⟨c, escaped⟩ q) (more : Bool) :
    Apart ⟨c, escaped || more⟩ q := by
  refine ⟨h.sign, h.start, h.number, fun he => h.entity ?_⟩
  cases escaped with
  | false => cases more <;> simp_all
  | true => simp at he

/-- What is moved to a new line opens no block there. -/
theorem newline_guard {c : Char} {escaped : Bool} (h : Apart p ⟨c, escaped⟩) :
    Apart newline ⟨c, escaped || decide (c ∈ Writer.opensBlock)⟩ := by
  refine ⟨fun he => ?_, fun he ho => ?_, fun _ _ => by decide, fun he => ?_⟩
  · rw [Bool.or_eq_false_iff] at he
    exact h.sign he.1
  · rw [Bool.or_eq_false_iff, decide_eq_false_iff_not] at he
    exact absurd ho he.2
  · exact absurd he (by decide)

end Apart

/-- A piece without a backslash at the end of a broken line was there before. -/
theorem Broken.getLast?_of_raw {ps qs : List Piece} (hb : Broken ps qs) {c : Char} (hc : c ≠ '\n')
    (h : qs.getLast? = some ⟨c, false⟩) : ps.getLast? = some ⟨c, false⟩ := by
  cases hb with
  | kept => exact h
  | moved before after =>
    cases after with
    | nil => simp [guard, newline, hc.symm] at h
    | cons p rest =>
      cases rest with
      | nil =>
        obtain ⟨hchar, hescaped, _⟩ : p.char = c ∧ p.escaped = false ∧
            p.char ∉ Writer.opensBlock := by
          simpa [guard, List.getLast?_append] using h
        have hp : p = ⟨c, false⟩ := by rw [← hchar, ← hescaped]
        simp [List.getLast?_append, hp]
      | cons q rest => simpa [guard, List.getLast?_append, List.getLast?_cons] using h

/-- Neighbours are apart from the start of the text on, and an ampersand at the end may be followed
by the next character. -/
structure Harmless (ps : List Piece) (next : Option Char) : Prop where
  /-- All neighbours are apart. The first piece begins a line. -/
  chain : (newline :: ps).IsChain Apart
  /-- An ampersand at the end does not begin an entity. -/
  ahead : ps.getLast? = some ⟨'&', false⟩ → next.any Char.isAlpha = false

namespace Harmless

variable {ps qs : List Piece} {next : Option Char}

/-- Pieces stay apart when they are moved to a new line. -/
theorem broken (h : Harmless ps next) (hb : Broken ps qs) : Harmless qs next := by
  refine ⟨?_, fun hlast => h.ahead (hb.getLast?_of_raw (by decide) hlast)⟩
  cases hb with
  | kept => exact h.chain
  | moved before after =>
    obtain ⟨hfront, hback⟩ := List.isChain_cons_split.mp h.chain
    have hline : (newline :: before ++ [newline]).IsChain Apart := by
      refine List.isChain_append.mpr ⟨(List.isChain_append.mp hfront).1, .singleton _, ?_⟩
      simp [Apart.to_newline]
    cases after with
    | nil => exact hline
    | cons p rest =>
      obtain ⟨hp, hrest⟩ := List.isChain_cons_cons.mp hback
      have hguarded : (guard (p :: rest)).IsChain Apart := by
        cases rest with
        | nil => exact .singleton _
        | cons q rest =>
          obtain ⟨hq, hrest⟩ := List.isChain_cons_cons.mp hrest
          exact List.isChain_cons_cons.mpr ⟨hq.of_escape _, hrest⟩
      exact List.isChain_cons_split.mpr
        ⟨hline, List.isChain_cons_cons.mpr ⟨hp.newline_guard, hguarded⟩⟩

/-- A character that gets no backslash is apart from what stands in front of it. -/
theorem apart {c : Char} (h : Harmless ps (some c)) {p : Piece}
    (hp : (newline :: ps).getLast? = some p) (next : Option Char) :
    Apart p ⟨c, needsEscape ps c next⟩ := by
  have hfree : needsEscape ps c next = false →
      marked (chars ps).getLast? c next = false ∧ (c ∈ Writer.opensBlock → atStart ps = false) := by
    intro he
    simpa [needsEscape] using he
  -- At the start of the text a line end stands for what is in front.
  have hprev : ps = [] ∧ p = newline ∨ ps.getLast? = some p := by
    cases ps with
    | nil => exact .inl ⟨rfl, by simpa using hp.symm⟩
    | cons q rest => exact .inr (by simpa [List.getLast?_cons] using hp)
  have hchar : ps.getLast? = some p → (chars ps).getLast? = some p.char := by
    intro hlast
    rw [chars, List.getLast?_map, hlast]
    rfl
  refine ⟨fun he => ?_, fun he ho => ?_, fun he hn => ?_, fun hamp _ => ?_⟩
  · have hm := (hfree he).1
    simp only [marked, Bool.or_eq_false_iff, decide_eq_false_iff_not] at hm
    exact hm.1.1.1
  · have hbegun := (hfree he).2 ho
    rcases hprev with ⟨rfl, rfl⟩ | hlast
    · exact absurd hbegun (by decide)
    · simpa [atStart, hchar hlast] using hbegun
  · rcases hprev with ⟨rfl, rfl⟩ | hlast
    · decide
    · have hm := (hfree he).1
      have hnumber : c ∈ ['.', ')'] := hn
      simp only [marked, Bool.or_eq_false_iff] at hm
      simpa [hnumber, hchar hlast] using hm.2
  · rcases hprev with ⟨_, rfl⟩ | hlast
    · exact absurd hamp (by decide)
    · simpa using h.ahead (hlast.trans (congrArg some hamp))

/-- Neighbours are apart when a character is written behind others. -/
theorem placed {c : Char} (h : Harmless ps (some c)) (next : Option Char) :
    Harmless (ps ++ [⟨c, needsEscape ps c next⟩]) next := by
  refine ⟨List.isChain_append.mpr ⟨h.chain, .singleton _, ?_⟩, ?_⟩
  · intro p hp q hq
    obtain rfl : _ = q := by simpa using hq
    exact h.apart hp next
  · intro hlast
    obtain ⟨rfl, he⟩ : c = '&' ∧ needsEscape ps c next = false := by simpa using hlast
    simp only [needsEscape, marked, Bool.or_eq_false_iff] at he
    simpa using he.1.1.1.2

end Harmless

/-- What is written is harmless. -/
theorem Written.harmless {ps rs : List Piece} {cs : List Char} (h : Written ps cs rs)
    (hps : Harmless ps cs.head?) : Harmless rs none := by
  induction h with
  | done ps => exact hps
  | @dropped ps rs cs hstart _ ih =>
    refine ih ⟨hps.chain, fun hlast => ?_⟩
    have hchar : (chars ps).getLast? = some '&' := by
      rw [chars, List.getLast?_map, hlast]
      rfl
    simp [atStart, hchar] at hstart
  | placed hbroken _ ih => exact ih ((hps.placed _).broken hbroken)

namespace Harmless

variable {ps : List Piece} {next : Option Char}

/-- What could be a sign by itself has a backslash. -/
theorem sign (h : Harmless ps next) :
    ∀ p ∈ ps, p.escaped = false → p.char ∉ Writer.alwaysEscaped := by
  have hchain := h.chain
  generalize newline = q at hchain
  clear h
  induction ps generalizing q with
  | nil => simp
  | cons p rest ih =>
    obtain ⟨hp, hrest⟩ := List.isChain_cons_cons.mp hchain
    exact List.forall_mem_cons.mpr ⟨hp.sign, ih p hrest⟩

/-- Harmless pieces are read as they were written. -/
theorem read_spellAll (h : Harmless ps next) : read (spellAll ps) = ps := by
  refine Piece.read_spellAll fun p hp hc => ?_
  cases he : p.escaped with
  | true => rfl
  | false => exact absurd (hc ▸ by decide) (h.sign p hp he)

/-- Line ends may be added. -/
theorem append_newlines (h : Harmless ps next) (count : Nat) :
    Harmless (ps ++ List.replicate count newline) none := by
  induction count with
  | zero => exact ⟨by simpa using h.chain, fun _ => rfl⟩
  | succ count ih =>
    refine ⟨?_, fun _ => rfl⟩
    rw [List.replicate_succ', ← List.append_assoc, ← List.cons_append]
    refine List.isChain_append.mpr ⟨ih.chain, .singleton _, fun p _ q hq => ?_⟩
    obtain rfl : newline = q := by simpa using hq
    exact Apart.to_newline p

end Harmless

/-- What two neighbours among the characters of a text must not be, whether or not the first of them
has a backslash. The second of them has none, since that would be its neighbour. -/
theorem isChain_spellAll {p : Piece} {ps : List Piece} (h : (p :: ps).IsChain Apart) :
    (p.char :: spellAll ps).IsChain fun d c =>
      (d = '\n' → c ∉ Writer.opensBlock) ∧ (d.isDigit = true → c ∉ Writer.endsNumber) := by
  induction ps generalizing p with
  | nil => exact .singleton _
  | cons q rest ih =>
    obtain ⟨hq, hrest⟩ := List.isChain_cons_cons.mp h
    have htail := ih hrest
    obtain ⟨c, escaped⟩ := q
    cases escaped with
    | true =>
      refine List.isChain_cons_cons.mpr ⟨⟨fun _ => by decide, fun _ => by decide⟩,
        List.isChain_cons_cons.mpr ⟨⟨fun hd => ?_, fun hd => ?_⟩, htail⟩⟩
      · exact absurd hd (by decide)
      · exact absurd hd (by decide)
    | false =>
      refine List.isChain_cons_cons.mpr ⟨⟨fun hd ho => hq.start rfl ho hd, fun hd hn => ?_⟩, htail⟩
      rw [hq.number rfl hn] at hd
      cases hd

end Piece

/-- Two neighbours in a chain. -/
theorem rel_of_neighbours {α : Type} {R : α → α → Prop} {xs : List α} (h : xs.IsChain R) {a b : α}
    (hab : [a, b] <:+: xs) : R a b := by
  obtain ⟨front, back, hxs⟩ := hab
  have hpair : xs = front ++ a :: b :: back := by
    rw [← hxs, List.append_assoc]
    rfl
  exact List.isChain_iff_forall_rel_of_append_cons_cons.mp h hpair

/-- A text that holds nothing but text. A backslash and the character behind it are read as one. -/
structure Inert (text : List Char) : Prop where
  /-- No character that is always a sign stands without a backslash. -/
  signs : ∀ p ∈ Piece.read text, p.escaped = false → p.char ∉ ['*', '_', '[', ']', '<', '>']
  /-- No line begins with a character that opens a block. The first line begins the text. -/
  starts : ∀ c, ['\n', c] <:+: '\n' :: text → c ∉ ['-', '+', '#', '=']
  /-- No digit is followed by a character that ends a number. -/
  numbers : ∀ d c, [d, c] <:+: text → d.isDigit = true → c ∉ ['.', ')']
  /-- No ampersand without a backslash is followed by a letter. -/
  entities : ∀ c, [⟨'&', false⟩, ⟨c, false⟩] <:+: Piece.read text → c.isAlpha = false
  /-- No exclamation mark without a backslash is followed by a bracket without one. -/
  images : ¬ [⟨'!', false⟩, ⟨'[', false⟩] <:+: Piece.read text

/-- Harmless pieces make an inert text. -/
theorem Piece.Harmless.inert {ps : List Piece} {next : Option Char} (h : Harmless ps next) :
    Inert (spellAll ps) := by
  have hchars := isChain_spellAll h.chain
  have hsigns : ∀ p ∈ ps, p.escaped = false → p.char ∉ ['*', '_', '[', ']', '<', '>'] := by
    intro p hp he hc
    exact h.sign p hp he (List.mem_append_left ['\\'] hc)
  refine ⟨?_, fun c hc => ?_, fun d c hdc hd => ?_, fun c hc => ?_, fun hc => ?_⟩
  · rw [h.read_spellAll]
    exact hsigns
  · exact (rel_of_neighbours hchars hc).1 rfl
  · exact (rel_of_neighbours hchars (hdc.trans (List.suffix_cons _ _).isInfix)).2 hd
  · rw [h.read_spellAll] at hc
    exact (rel_of_neighbours h.chain (hc.trans (List.suffix_cons _ _).isInfix)).entity rfl rfl
  · rw [h.read_spellAll] at hc
    exact hsigns ⟨'[', false⟩ (hc.subset (by simp)) rfl (by decide)

/-- A paragraph of text is what its characters make, and line ends behind. -/
theorem exists_written_render (settings : RenderSettings) (content : String) :
    ∃ rs count, Piece.Written [] (Writer.squeeze content.toList) rs ∧
      (Node.branch .document [.branch .paragraph [.leaf (.text content)]]).render settings =
        .ok (String.ofList (Piece.spellAll (rs ++ List.replicate count Piece.newline))) := by
  have hescapes : Policy.prose.escapes = true := rfl
  obtain ⟨rs, hwritten, hspelled⟩ :=
    (Draft.SpelledBy.initial settings.width).putAll hescapes (Writer.squeeze content.toList)
  obtain ⟨hclosed, count, _, htext, _⟩ := Draft.text_conclude hspelled.segments
  have hdraft : draftOfVisits settings (Node.visitsUnder .paragraph 0 [.leaf (.text content)])
      { width := settings.width } = .ok (({ width := settings.width } : Draft).putAll .prose
        (Writer.squeeze content.toList)) := rfl
  have hends : Piece.spellAll (List.replicate count Piece.newline) = List.replicate count '\n' := by
    rw [Piece.spellAll, List.flatMap_replicate]
    simp [Piece.spell, Piece.newline]
  refine ⟨rs, count, hwritten, ?_⟩
  rw [Node.render_paragraph hdraft hclosed, htext, hspelled.text, Piece.spellAll_append, hends]

/-- Escaping loses nothing: without the backslashes, the words of a rendered paragraph are the words
of its text, at every width. -/
theorem words_read_render (settings : RenderSettings) (content : String) :
    ∃ text, (Node.branch .document [.branch .paragraph [.leaf (.text content)]]).render settings =
        .ok text ∧
      wordsOf (Piece.chars (Piece.read text.toList)) = wordsOf content.toList := by
  obtain ⟨rs, count, hwritten, hrender⟩ := exists_written_render settings content
  have hsafe := (hwritten.harmless ⟨.singleton _, by simp⟩).append_newlines count
  have hends : Piece.chars (List.replicate count Piece.newline) = List.replicate count '\n' :=
    List.map_replicate
  have hfront : false = true → ([] : List Char).getLast? = some ' ' := by simp
  refine ⟨_, hrender, ?_⟩
  calc wordsOf (Piece.chars (Piece.read (String.ofList _).toList))
      = wordsOf (Piece.chars rs ++ List.replicate count '\n') := by
        rw [String.toList_ofList, hsafe.read_spellAll, Piece.chars_append, hends]
    _ = wordsOf (Piece.chars rs) := wordsOf_append_replicate _ count
    _ = wordsOf (Writer.squeeze content.toList) := hwritten.wordsOf_eq
    _ = wordsOf content.toList := wordsOf_append_squeezeAfter hfront content.toList

/-- A rendered paragraph of text is nothing but text, at every width. -/
theorem inert_render (settings : RenderSettings) (content : String) :
    ∃ text, (Node.branch .document [.branch .paragraph [.leaf (.text content)]]).render settings =
        .ok text ∧
      Inert text.toList := by
  obtain ⟨rs, count, hwritten, hrender⟩ := exists_written_render settings content
  have hsafe := (hwritten.harmless ⟨.singleton _, by simp⟩).append_newlines count
  refine ⟨_, hrender, ?_⟩
  rw [String.toList_ofList]
  exact hsafe.inert

end MarkdownLayout
