import MarkdownLayout.Proofs.Marks

/-!
# How an item is opened

When the mark of an item has been written, a layout waits for content. Blanks may come before it,
and one of them may become a line end; a line end or a break may come before it, and then the
content is one line below the mark. `Opening` keeps count of that without looking at the text: the
next character or break either leaves the layout waiting, or is the first content, close to the
mark, or leaves a blank line below the mark. `Mark.Opens` says what each of these means for a draft,
and every operation on a draft is one on its opening.
-/

namespace MarkdownLayout

/-- Where a layout stands that waits for the first content of an item. Only blanks and at most one
line end have come since the mark. -/
inductive Stand where
  /-- Behind the mark, with nothing but blanks in between. A number says for how many more blanks
  the line has room; without one it is not broken at a blank. -/
  | behind (room : Option Nat)
  /-- At the end of the line of the mark. The next line has not begun. -/
  | below
  /-- On the line below the mark, which has its margin and nothing else but blanks. -/
  | begun
  deriving DecidableEq, Repr

/-- Where a blank leads to. One for which there is no room becomes a line end, and the next line
begins with its margin. -/
def Stand.blank : Stand → Stand
  | .behind none => .behind none
  | .behind (some 0) => .begun
  | .behind (some (room + 1)) => .behind (some room)
  | .below | .begun => .begun

/-- How an item begins, as far as it has been laid out. The last three are final: nothing that is
written later changes them. -/
inductive Opening where
  /-- There is no content yet. Breaks may be owed. -/
  | waiting (place : Stand) (owed : Owed)
  /-- The first content is on the line of the mark or on the next one. -/
  | met
  /-- A blank line stands below the mark. -/
  | parted
  /-- There is a heading without a level, which cannot be made. -/
  | unmade
  deriving DecidableEq, Repr

namespace Opening

/-- The opening of an item whose mark has just been written. -/
def start (room : Option Nat) : Opening :=
  .waiting (.behind room) .nothing

/-- A break is owed, and the greater one counts. -/
def owe (owed : Owed) : Opening → Opening
  | .waiting place due => .waiting place (if due.level < owed.level then owed else due)
  | o => o

/-- The breaks owed are paid. A line end leads to the line below the mark, unless that line has
begun; a blank line is one below the mark. -/
def flush : Opening → Opening
  | .waiting place .nothing => .waiting place .nothing
  | .waiting (.behind _) .lineEnd | .waiting .below .lineEnd => .waiting .below .nothing
  | .waiting _ _ => .parted
  | o => o

/-- A character is written. -/
def put (o : Opening) (c : Char) : Opening :=
  match o with
  | .waiting place owed =>
    if c = ' ' then .waiting place.blank owed
    else if c = '\n' then
      match place with
      | .behind _ => .waiting .below owed
      | .below | .begun => .parted
    else .met
  | o => o

/-- Running text is written. A run of blanks counts as one. -/
def emit (span : String) (o : Opening) : Opening :=
  (Writer.squeeze span.toList).foldl put o.flush

/-- Markup is written, which begins with content. -/
def mark (o : Opening) : Opening :=
  match o.flush with
  | .waiting .. => .met
  | o => o

/-- A heading without a level is written. -/
def unmake : Opening → Opening
  | .waiting .. => .unmade
  | o => o

/-- Nothing more is waited for. -/
def IsDone (o : Opening) : Prop :=
  ∀ place owed, o ≠ .waiting place owed

/-- The first content is there. -/
theorem isDone_met : met.IsDone := fun _ _ he => by cases he

/-- The blank line is there. -/
theorem isDone_parted : parted.IsDone := fun _ _ he => by cases he

/-- The heading that cannot be made is there. -/
theorem isDone_unmade : unmade.IsDone := fun _ _ he => by cases he

/-- There are three ways for an item to be opened, and two if all its headings have levels. -/
theorem IsDone.cases {o : Opening} (h : o.IsDone) : o = .met ∨ o = .parted ∨ o = .unmade := by
  cases o with
  | waiting place owed => exact absurd rfl (h place owed)
  | met => exact .inl rfl
  | parted => exact .inr (.inl rfl)
  | unmade => exact .inr (.inr rfl)

/-- Content is waited for, or nothing is. Proofs about openings split here: where nothing is waited
for, all operations do nothing. -/
theorem isDone_or_waiting (o : Opening) : o.IsDone ∨ ∃ place owed, o = .waiting place owed := by
  cases o with
  | waiting place owed => exact .inr ⟨place, owed, rfl⟩
  | met => exact .inl isDone_met
  | parted => exact .inl isDone_parted
  | unmade => exact .inl isDone_unmade

/-- Where nothing is waited for, no character that is written matters. -/
theorem IsDone.put {o : Opening} (h : o.IsDone) (c : Char) : o.put c = o := by
  rcases h.cases with rfl | rfl | rfl <;> rfl

/-- Nor do breaks that are paid there: they come behind the first content. -/
theorem IsDone.flush {o : Opening} (h : o.IsDone) : o.flush = o := by
  rcases h.cases with rfl | rfl | rfl <;> rfl

/-- Nor do breaks that are owed there. -/
theorem IsDone.owe {o : Opening} (h : o.IsDone) (owed : Owed) : o.owe owed = o := by
  rcases h.cases with rfl | rfl | rfl <;> rfl

/-- Nor does markup, which is content among other content. -/
theorem IsDone.mark {o : Opening} (h : o.IsDone) : o.mark = o := by
  rcases h.cases with rfl | rfl | rfl <;> rfl

/-- Nor does a heading that cannot be made. -/
theorem IsDone.unmake {o : Opening} (h : o.IsDone) : o.unmake = o := by
  rcases h.cases with rfl | rfl | rfl <;> rfl

/-- Nor do any number of characters. -/
theorem IsDone.foldl_put {o : Opening} (h : o.IsDone) (cs : List Char) :
    cs.foldl Opening.put o = o := by
  induction cs with
  | nil => rfl
  | cons c rest ih => rw [List.foldl_cons, h.put, ih]

/-- Nor does running text, which is a break and characters. -/
theorem IsDone.emit {o : Opening} (h : o.IsDone) (span : String) : o.emit span = o := by
  rw [Opening.emit, h.flush, h.foldl_put]

/-- Once breaks are paid none are owed. The layout goes on waiting on a line of its own, or a blank
line has come. -/
theorem flush_cases (o : Opening) :
    (∃ place, o.flush = .waiting place .nothing) ∨ o.flush.IsDone := by
  rcases o.isDone_or_waiting with hdone | ⟨place, owed, rfl⟩
  · rw [hdone.flush]
    exact .inr hdone
  cases owed with
  | nothing => exact .inl ⟨place, rfl⟩
  | blankLine => exact .inr isDone_parted
  | lineEnd =>
    cases place with
    | behind room => exact .inl ⟨.below, rfl⟩
    | below => exact .inl ⟨.below, rfl⟩
    | begun => exact .inr isDone_parted

/-- A heading that cannot be made is the end of waiting, wherever it comes. -/
theorem isDone_unmake (o : Opening) : o.unmake.IsDone := by
  rcases o.isDone_or_waiting with hdone | ⟨place, owed, rfl⟩
  · rwa [hdone.unmake]
  · exact isDone_unmade

/-- A blank line leaves nothing to wait for, whatever the place and whatever else is owed. -/
theorem flush_owe_blankLine (place : Stand) (owed : Owed) :
    ((waiting place owed).owe .blankLine).flush = .parted := by
  cases owed <;> cases place <;> rfl

/-- Where the breaks owed leave nothing to wait for, markup adds nothing. -/
theorem IsDone.mark_flush {o : Opening} (h : o.flush.IsDone) : o.flush = o.mark := by
  unfold Opening.mark
  split
  · rename_i place owed he
    exact absurd he (h place owed)
  · rfl

/-- Markup is content, or comes below a blank line. Containers that write it never leave an item
waiting. -/
theorem isDone_mark (o : Opening) : o.mark.IsDone := by
  rcases o.flush_cases with ⟨place, hflush⟩ | hdone
  · rw [mark, hflush]
    exact isDone_met
  · rwa [← hdone.mark_flush]

/-- The line is not broken at a blank, so there is no count of the blanks for which it has room. -/
def KeepsBlanks (o : Opening) : Prop :=
  ∀ room owed, o ≠ .waiting (.behind (some room)) owed

/-- No character begins such a count. It is made once, when the mark has been written. -/
theorem KeepsBlanks.put {o : Opening} (h : o.KeepsBlanks) (c : Char) : (o.put c).KeepsBlanks := by
  cases o with
  | waiting place owed =>
    unfold Opening.put
    dsimp only
    split
    · intro room owed' he
      cases place with
      | behind room =>
        cases room with
        | none => cases he
        | some room => exact h room owed rfl
      | below | begun => cases he
    · split
      · cases place <;> exact fun _ _ he => by cases he
      · exact fun _ _ he => by cases he
  | met | parted | unmade => exact fun _ _ he => by cases he

/-- Where the line is not broken at blanks, the second one of a run changes nothing. -/
theorem KeepsBlanks.put_put {o : Opening} (h : o.KeepsBlanks) :
    (o.put ' ').put ' ' = o.put ' ' := by
  cases o with
  | waiting place owed =>
    cases place with
    | behind room =>
      cases room with
      | none => rfl
      | some room => exact absurd rfl (h room owed)
    | below | begun => rfl
  | met | parted | unmade => rfl

/-- There a run of blanks counts as one, whether it is written as one or not. Spans on lines that
are kept whole are written as they are, and openings need not know of it. -/
theorem KeepsBlanks.foldl_squeezeAfter {o : Opening} (h : o.KeepsBlanks) (after : Bool)
    (hafter : after = true → o.put ' ' = o) (cs : List Char) :
    (Writer.squeezeAfter after cs).foldl Opening.put o = cs.foldl Opening.put o := by
  induction cs generalizing o after with
  | nil => rfl
  | cons c rest ih =>
    by_cases hc : c = ' '
    · subst hc
      have hrest := ih (h.put ' ') true fun _ => h.put_put
      cases after with
      | false => simpa [Writer.squeezeAfter] using hrest
      | true =>
        rw [hafter rfl] at hrest
        simpa [Writer.squeezeAfter, hafter rfl] using hrest
    · have hrest := ih (h.put c) false Bool.noConfusion
      simpa [Writer.squeezeAfter, hc] using hrest

end Opening

/-- For how many more blanks the current line has room, if it is broken at blanks at all. Lines are
not broken at a width of zero or below, nor while they are kept whole. -/
def Writer.room (w : Writer) : Option Nat :=
  if w.keepsLines ∨ w.width ≤ 0 then none else some (w.width - w.column).toNat

namespace Draft

/-- The same for a draft, whose column is that of its writer. -/
def room (d : Draft) : Option Nat :=
  if d.keepsLines ∨ d.width ≤ 0 then none else some (d.width - d.column).toNat

/-- A draft and its writer have the same room. -/
theorem room_toWriter (d : Draft) : d.toWriter.room = d.room := rfl

/-- There is no count exactly where no blank becomes a line end. -/
theorem room_eq_none_iff {d : Draft} : d.room = none ↔ d.keepsLines ∨ d.width ≤ 0 := by
  unfold room
  split <;> simp_all

/-- Where there is a count it is the distance from the column to the width, and nothing where the
line is too long already. -/
theorem room_eq_some_iff {d : Draft} {room : Nat} :
    d.room = some room ↔
      d.keepsLines = false ∧ 0 < d.width ∧ (d.width - d.column).toNat = room := by
  unfold Draft.room
  split
  · rename_i h
    simp only [reduceCtorEq, false_iff, not_and]
    intro hkeeps hwidth
    rcases h with h | h
    · simp [h] at hkeeps
    · omega
  · rename_i h
    rw [not_or, Bool.not_eq_true, Int.not_le] at h
    simp [h]

/-- The text of a line without a break point is written for good. -/
theorem text_of_not_loose {d : Draft} (h : ∀ tail escapes, d.line ≠ .loose tail escapes) :
    d.text = Glyph.chars d.head := by
  unfold text glyphs
  split
  · rename_i tail escapes hl
    exact absurd hl (h tail escapes)
  · rfl

end Draft

namespace Mark

/-- A mark such as items have. The blanks at the end of its parts tell the line of a mark from one
that holds nothing. -/
structure Proper (m : Mark) : Prop where
  /-- It ends with a blank. -/
  marker : m.marker.getLast? = some ' '
  /-- What opens the other lines ends with a blank. -/
  indent : m.indent.getLast? = some ' '
  /-- It is on one line. -/
  line : '\n' ∉ m.indent

/-- Where nothing but blanks stands behind a mark on its line. The cases differ in where the line
may be broken, and so in what a break would move. -/
inductive Bare (m : Mark) (d : Draft) : Prop where
  /-- The line has no break point. -/
  | solid {front above : List Char} (hfront : Recast m.outer m.front front)
      (habove : ∀ c ∈ above, c = ' ') (hhead : Glyph.chars d.head = front ++ m.marker ++ above)
      (hline : d.line = .solid)
  /-- The last of the blanks is the break point. -/
  | joint {front above : List Char} {escapes : Bool} (hfront : Recast m.outer m.front front)
      (habove : ∀ c ∈ above, c = ' ') (hhead : Glyph.chars d.head = front ++ m.marker ++ above)
      (hline : d.line = .loose [] escapes) (hkeeps : d.keepsLines = false)
  /-- The break point is in front of the mark. -/
  | movable {tail above : List Char} {escapes : Bool}
      (hfront : m.front = Glyph.chars d.head ++ ' ' :: tail) (habove : ∀ c ∈ above, c = ' ')
      (hline : d.line = .loose (tail ++ m.marker ++ above) escapes)

/-- What a place means for a draft. Behind the mark the room is counted; below it the text is fixed
up to the line end. -/
def At (m : Mark) : Stand → Draft → Prop
  | .behind room, d => d.room = room ∧ m.Bare d
  | .below, d => ∃ front above, Recast m.outer m.front front ∧ (∀ c ∈ above, c = ' ') ∧
      Glyph.chars d.head = front ++ m.marker ++ above ++ ['\n'] ∧ d.line = .fresh
  | .begun, d => ∃ front above below, Recast m.outer m.front front ∧ (∀ c ∈ above, c = ' ') ∧
      (∀ c ∈ below, c = ' ') ∧
      Glyph.chars d.head = front ++ m.marker ++ above ++ '\n' :: (m.margin ++ below) ∧
      (d.line = .opened ∨ d.line = .solid ∧ d.keepsLines = true)

/-- The first content of an item is still to come. -/
structure Waits (m : Mark) (place : Stand) (owed : Owed) (d : Draft) : Prop where
  /-- The mark is one such as items have. -/
  proper : m.Proper
  /-- The breaks that come in between. -/
  owed_eq : d.owed = owed
  /-- The margin is that of the item. -/
  margin : d.margin = m.margin
  /-- Only blanks have been written, and at most one line end. -/
  at_place : m.At place d

/-- What an opening means for a draft. -/
def Opens (m : Mark) : Opening → Draft → Prop
  | .waiting place owed, d => m.Waits place owed d
  | .met, d => m.Reached d
  | .parted, d => m.Parted (Glyph.chars d.head)
  | .unmade, _ => True

/-- Blanks with one more are blanks. -/
theorem forall_mem_concat_blank {cs : List Char} (h : ∀ c ∈ cs, c = ' ') :
    ∀ c ∈ cs ++ [' '], c = ' ' :=
  List.forall_mem_append.mpr ⟨h, List.forall_mem_singleton.mpr rfl⟩

/-- What ends with a blank still does so when blanks are written behind it. -/
theorem getLast?_append_blanks {cs above : List Char} (h : cs.getLast? = some ' ')
    (habove : ∀ c ∈ above, c = ' ') : (cs ++ above).getLast? = some ' ' := by
  rw [List.getLast?_append]
  cases hlast : above.getLast? with
  | none => exact h
  | some c => rw [habove c (List.mem_of_getLast? hlast), Option.some_or]

/-- The margin below a mark ends with a blank, because the margin of an item does. -/
theorem Proper.getLast?_margin {m : Mark} (h : m.Proper) : m.margin.getLast? = some ' ' := by
  rw [margin, List.getLast?_append, h.indent, Option.some_or]

namespace Bare

variable {m : Mark} {d : Draft}

/-- The line of a mark has its margin, so no margin is written between the mark and what follows. -/
theorem line_ne_fresh (h : m.Bare d) : d.line ≠ .fresh := by
  cases h <;> simp_all

/-- The line of a mark has begun, so a blank behind the mark is written and not dropped. -/
theorem atLineStart (h : m.Bare d) : d.atLineStart = false := by
  cases h <;> simp_all [Draft.atLineStart]

/-- The whole text ends with the mark and blanks, wherever the break point is. -/
theorem text (h : m.Bare d) :
    ∃ front above, Recast m.outer m.front front ∧ (∀ c ∈ above, c = ' ') ∧
      d.text = front ++ m.marker ++ above := by
  cases h with
  | solid hfront habove hhead hline =>
    exact ⟨_, _, hfront, habove, by simp [Draft.text, Draft.glyphs, hline, hhead]⟩
  | joint hfront habove hhead hline _ =>
    exact ⟨_, _, hfront, forall_mem_concat_blank habove, by
      simp [Draft.text_of_loose hline, hhead]⟩
  | movable hfront habove hline =>
    exact ⟨_, _, .same, habove, by simp [Draft.text_of_loose hline, hfront]⟩

/-- The line of a mark does not end a line, so breaks owed there begin with a line end. -/
theorem getLast?_text (h : m.Bare d) (hm : m.Proper) : d.text.getLast? = some ' ' := by
  obtain ⟨front, above, -, habove, htext⟩ := h.text
  rw [htext]
  refine getLast?_append_blanks ?_ habove
  rw [List.getLast?_append, hm.marker, Option.some_or]

end Bare

end Mark

namespace Draft

/-- A line that ends is written for good, with all that stood behind its break point. -/
theorem chars_head_endLine (cs : List Char) (d : Draft) :
    Glyph.chars (d.endLine cs).head = d.text ++ cs := by
  simp [endLine, text]

/-- A line end that is owed is written behind a line with text, here one that ends with a blank. -/
theorem flush_lineEnd {d : Draft} (ho : d.owed = .lineEnd) (hlast : d.text.getLast? = some ' ') :
    d.flush = { d.endLine ['\n'] with owed := .nothing } := by
  have hnewline : d.text.getLast? ≠ some '\n' := by
    rw [hlast]
    decide
  have hne : d.text ≠ [] := by
    rintro he
    rw [he] at hlast
    cases hlast
  have hbreaks : d.breaksOwed = ['\n'] := by
    rw [breaksOwed, ho]
    exact if_neg (not_or.mpr ⟨hne, hnewline⟩)
  rw [flush, if_neg (by simp [ho]), hbreaks]

/-- Behind a line end that stands alone no second one is owed, and of a blank line only the second
half is left to write. -/
theorem flush_of_lineEnd {d : Draft} {cs : List Char} (htext : d.text = cs ++ [' ', '\n']) :
    (d.owed = .lineEnd → d.flush = { d.endLine [] with owed := .nothing }) ∧
      (d.owed = .blankLine →
        d.flush = { d.endLine (d.margin ++ ['\n']) with owed := .nothing }) := by
  have hlast : d.text.getLast? = some '\n' := by simp [htext]
  refine ⟨fun ho => ?_, fun ho => ?_⟩
  · have hbreaks : d.breaksOwed = [] := by
      rw [breaksOwed, ho]
      exact if_pos (.inr hlast)
    rw [flush, if_neg (by simp [ho]), hbreaks]
  · have hnot : ¬ (d.text = [] ∨ d.text = ['\n'] ∨ ['\n', '\n'] <:+ d.text) := by
      have hconcat : d.text = (cs ++ [' ']) ++ ['\n'] := by simp [htext]
      rintro (he | he | he)
      · simp [htext] at he
      · have hlength := congrArg List.length he
        simp [htext] at hlength
      · rw [hconcat] at he
        have hbefore := getLast?_of_pair_suffix_concat he
        simp at hbefore
    have hbreaks : d.breaksOwed = d.margin ++ ['\n'] := by
      rw [breaksOwed, ho]
      exact (if_neg hnot).trans (if_pos hlast)
    rw [flush, if_neg (by simp [ho]), hbreaks]

end Draft

namespace Mark

variable {m : Mark} {d d' : Draft}

/-- The text of a draft that stands at the end of the line of the mark. -/
theorem At.text_below (h : m.At .below d) :
    ∃ front above, Recast m.outer m.front front ∧ (∀ c ∈ above, c = ' ') ∧
      d.text = front ++ m.marker ++ above ++ ['\n'] := by
  obtain ⟨front, above, hfront, habove, hhead, hline⟩ := h
  exact ⟨front, above, hfront, habove, by rw [Draft.text_of_not_loose (by simp [hline]), hhead]⟩

/-- There is no break point on the line below the mark. -/
theorem At.line_ne_loose (h : m.At .begun d) (tail : List Char) (escapes : Bool) :
    d.line ≠ .loose tail escapes := by
  obtain ⟨_, _, _, _, _, _, _, hline⟩ := h
  rcases hline with hline | ⟨hline, -⟩ <;> simp [hline]

/-- The text of a draft that stands on the line below the mark. -/
theorem At.text_begun (h : m.At .begun d) :
    ∃ front above below, Recast m.outer m.front front ∧ (∀ c ∈ above, c = ' ') ∧
      (∀ c ∈ below, c = ' ') ∧
      d.text = front ++ m.marker ++ above ++ '\n' :: (m.margin ++ below) := by
  have htext := Draft.text_of_not_loose h.line_ne_loose
  obtain ⟨front, above, below, hfront, habove, hbelow, hhead, -⟩ := h
  exact ⟨front, above, below, hfront, habove, hbelow, htext.trans hhead⟩

/-- The line below the mark ends with a blank as well, of its margin or of its text. -/
theorem At.getLast?_text_begun (h : m.At .begun d) (hm : m.Proper) :
    d.text.getLast? = some ' ' := by
  obtain ⟨front, above, below, -, -, hbelow, htext⟩ := h.text_begun
  have hlast := getLast?_append_blanks hm.getLast?_margin hbelow
  rw [htext, List.getLast?_append, List.getLast?_cons, hlast]
  rfl

/-- The line of a mark ends with a blank. A line end behind it stands alone, and makes no blank line
yet. -/
theorem At.exists_text_below (h : m.At .below d) (hm : m.Proper) :
    ∃ cs, d.text = cs ++ [' ', '\n'] := by
  obtain ⟨front, above, -, habove, htext⟩ := h.text_below
  obtain ⟨cs, hcs⟩ := List.getLast?_eq_some_iff.mp (getLast?_append_blanks hm.marker habove)
  refine ⟨front ++ cs, ?_⟩
  rw [htext, List.append_assoc front, hcs]
  simp

/-- A draft that waits has text: the mark is there. The end of a document therefore asks for a line
end. -/
theorem Waits.text_ne_nil {place : Stand} {owed : Owed} (h : m.Waits place owed d) :
    d.text ≠ [] := by
  have hat := h.at_place
  cases place with
  | behind room =>
    intro he
    have hlast := hat.2.getLast?_text h.proper
    rw [he] at hlast
    cases hlast
  | below =>
    obtain ⟨front, above, -, -, htext⟩ := hat.text_below
    simp [htext]
  | begun =>
    obtain ⟨front, above, below, -, -, -, htext⟩ := hat.text_begun
    simp [htext]

/-- A blank line behind a mark is one below it. Below a line end that is there already only the
margin and another line end are written. -/
theorem Waits.parted_flush {place : Stand} (h : m.Waits place .blankLine d) :
    m.Parted (Glyph.chars d.flush.head) := by
  cases place with
  | behind room =>
    obtain ⟨front, above, hfront, habove, htext⟩ := h.at_place.2.text
    rw [Draft.flush_of_last h.owed_eq (h.at_place.2.getLast?_text h.proper) (by decide)]
    refine ⟨front, above, [], [], hfront, habove, List.forall_mem_nil _, ?_⟩
    show Glyph.chars (d.endLine ('\n' :: (d.margin ++ ['\n']))).head = _
    rw [Draft.chars_head_endLine, htext, h.margin, List.append_nil]
  | below =>
    obtain ⟨front, above, hfront, habove, htext⟩ := h.at_place.text_below
    obtain ⟨cs, hcs⟩ := h.at_place.exists_text_below h.proper
    rw [(Draft.flush_of_lineEnd hcs).2 h.owed_eq]
    refine ⟨front, above, [], [], hfront, habove, List.forall_mem_nil _, ?_⟩
    show Glyph.chars (d.endLine (d.margin ++ ['\n'])).head = _
    rw [Draft.chars_head_endLine, htext, h.margin]
    simp
  | begun =>
    obtain ⟨front, above, below, hfront, habove, hbelow, htext⟩ := h.at_place.text_begun
    rw [Draft.flush_of_last h.owed_eq (h.at_place.getLast?_text_begun h.proper) (by decide)]
    refine ⟨front, above, below, m.margin ++ ['\n'], hfront, habove, hbelow, ?_⟩
    show Glyph.chars (d.endLine ('\n' :: (d.margin ++ ['\n']))).head = _
    rw [Draft.chars_head_endLine, htext, h.margin]
    simp

/-- A line end leads to the line below the mark. If that line has begun, it is left blank. -/
theorem Waits.flush_lineEnd {place : Stand} (h : m.Waits place .lineEnd d) :
    m.Opens (Opening.flush (.waiting place .lineEnd)) d.flush := by
  cases place with
  | behind room =>
    obtain ⟨front, above, hfront, habove, htext⟩ := h.at_place.2.text
    rw [Draft.flush_lineEnd h.owed_eq (h.at_place.2.getLast?_text h.proper)]
    refine ⟨h.proper, rfl, h.margin, front, above, hfront, habove, ?_, rfl⟩
    show Glyph.chars (d.endLine ['\n']).head = _
    rw [Draft.chars_head_endLine, htext]
  | below =>
    obtain ⟨front, above, hfront, habove, htext⟩ := h.at_place.text_below
    obtain ⟨cs, hcs⟩ := h.at_place.exists_text_below h.proper
    rw [(Draft.flush_of_lineEnd hcs).1 h.owed_eq]
    refine ⟨h.proper, rfl, h.margin, front, above, hfront, habove, ?_, rfl⟩
    show Glyph.chars (d.endLine []).head = _
    rw [Draft.chars_head_endLine, htext, List.append_nil]
  | begun =>
    obtain ⟨front, above, below, hfront, habove, hbelow, htext⟩ := h.at_place.text_begun
    rw [Draft.flush_lineEnd h.owed_eq (h.at_place.getLast?_text_begun h.proper)]
    refine ⟨front, above, below, [], hfront, habove, hbelow, ?_⟩
    show Glyph.chars (d.endLine ['\n']).head = _
    rw [Draft.chars_head_endLine, htext]
    simp

/-- Paying the breaks owed is paying those of the opening. From here on each operation on a draft
has its counterpart among the openings. -/
theorem Opens.flush {o : Opening} (h : m.Opens o d) : m.Opens o.flush d.flush := by
  cases o with
  | met => exact Reached.flush h
  | parted => exact Parted.mono h (d.head_prefix_flush.map Glyph.char)
  | unmade => trivial
  | waiting place owed =>
    have hw : m.Waits place owed d := h
    cases owed with
    | nothing =>
      have hflush : d.flush = d := if_pos hw.owed_eq
      rw [hflush]
      exact hw
    | lineEnd => exact hw.flush_lineEnd
    | blankLine =>
      have hparted : Opening.flush (.waiting place .blankLine) = .parted := by cases place <;> rfl
      rw [hparted]
      exact hw.parted_flush

/-- Owing a break is owing it to the opening, and moves nothing. -/
theorem Opens.owe {o : Opening} (h : m.Opens o d) (owed : Owed) :
    m.Opens (o.owe owed) (d.apply (.owe owed)) := by
  cases o with
  | met =>
    have hw : m.Reached d := h
    exact hw.apply (Step.isScripted_owe owed) fun _ he => by cases he
  | parted => exact Parted.mono h ((d.head_prefix_apply _).map Glyph.char)
  | unmade => trivial
  | waiting place due =>
    have hw : m.Waits place due d := h
    rw [Opening.owe, Draft.apply, Draft.owe, hw.owed_eq]
    split
    · refine ⟨hw.proper, rfl, hw.margin, ?_⟩
      have hat := hw.at_place
      cases place with
      | behind room =>
        refine ⟨hat.1, ?_⟩
        cases hat.2 with
        | solid hfront habove hhead hline => exact .solid hfront habove hhead hline
        | joint hfront habove hhead hline hkeeps => exact .joint hfront habove hhead hline hkeeps
        | movable hfront habove hline => exact .movable hfront habove hline
      | below | begun => exact hat
    · exact hw

/-- A blank at which the line may be broken, behind a mark. The room tells whether it is broken at
once. -/
theorem At.placeBlank {room : Option Nat} (h : m.At (.behind room) d)
    (hkeeps : d.keepsLines = false) (hmargin : d.margin = m.margin) :
    m.At (Stand.behind room).blank d.placeBlank.settle := by
  obtain ⟨hroom, hbare⟩ := h
  obtain ⟨front, above, hfront, habove, htext⟩ := hbare.text
  have hhead : Glyph.chars d.glyphs = front ++ m.marker ++ above := htext
  rw [Draft.placeBlank_of_begun hbare.atLineStart]
  by_cases hlong : 0 < d.width ∧ d.width < (d.column + 1 : Nat)
  · -- There is no room, and the blank becomes a line end.
    have hspent : room = some 0 := by
      rw [← hroom]
      exact Draft.room_eq_some_iff.mpr ⟨hkeeps, hlong.1, by omega⟩
    have hsettle : Draft.settle
        { d with head := d.glyphs, line := .loose [] false, column := d.column + 1 } =
        Draft.rewind [] false
          { d with head := d.glyphs, line := .loose [] false, column := d.column + 1 } :=
      if_pos hlong
    rw [hspent, hsettle]
    refine ⟨front, above, [], hfront, habove, List.forall_mem_nil _, ?_, .inl rfl⟩
    have hmargin' : d.segments.flatMap String.toList = m.margin := hmargin
    simp [Draft.rewind, Draft.margin, Draft.tailGuard, hhead, hmargin']
  · have hsettle : Draft.settle
        { d with head := d.glyphs, line := .loose [] false, column := d.column + 1 } =
        { d with head := d.glyphs, line := .loose [] false, column := d.column + 1 } :=
      if_neg hlong
    rw [hsettle]
    have hjoint : m.Bare
        { d with head := d.glyphs, line := .loose [] false, column := d.column + 1 } :=
      .joint hfront habove hhead rfl hkeeps
    cases room with
    | none =>
      have hkept := Draft.room_eq_none_iff.mp hroom
      exact ⟨Draft.room_eq_none_iff.mpr hkept, hjoint⟩
    | some room =>
      obtain ⟨-, hwidth, hcolumn⟩ := Draft.room_eq_some_iff.mp hroom
      obtain ⟨left, rfl⟩ : ∃ left, room = left + 1 := ⟨room - 1, by omega⟩
      refine ⟨Draft.room_eq_some_iff.mpr ⟨hkeeps, hwidth, ?_⟩, hjoint⟩
      show (d.width - (d.column + 1 : Nat)).toNat = left
      omega

/-- No blank needs a backslash. -/
theorem spelled_blank (escapes : Bool) (next : Option Char) (d : Draft) :
    d.spelled escapes ' ' next = [' '] := by
  have hneeds : d.needsEscape ' ' next = false := rfl
  rw [Draft.spelled, hneeds, Bool.and_false]
  rfl

/-- A blank may be broken at where its policy wraps, and is spelled like any character elsewhere. -/
theorem place_blank (policy : Policy) (next : Option Char) (d : Draft) :
    d.place policy ' ' next =
      if policy.wraps then d.placeBlank else d.append policy.escapes [' '] := by
  unfold Draft.place
  rw [spelled_blank]
  cases policy.wraps <;> simp

/-- A blank on a line that is kept whole, behind a mark. It may still be that the line is broken in
front of the mark, and then mark and blanks move together. -/
theorem At.append_blank {room : Option Nat} (h : m.At (.behind room) d)
    (hkeeps : d.keepsLines = true) (hmargin : d.margin = m.margin) (hm : m.Proper)
    (escapes : Bool) : m.At (Stand.behind room).blank (d.append escapes [' ']).settle := by
  obtain ⟨hroom, hbare⟩ := h
  have hnone : room = none := by
    rw [← hroom]
    exact Draft.room_eq_none_iff.mpr (.inl hkeeps)
  subst hnone
  have hframe := Draft.frame_append escapes [' '] d
  have hsettled : (d.append escapes [' ']).settle.keepsLines = true := by
    rw [Draft.keepsLines_of_frame (Draft.frame_settle _), Draft.keepsLines_of_frame hframe, hkeeps]
  refine ⟨Draft.room_eq_none_iff.mpr (.inl hsettled), ?_⟩
  cases hbare with
  | solid hfront habove hhead hline =>
    have hsolid : (d.append escapes [' ']).line = .solid :=
      Draft.line_append_of_not_loose (by simp [hline]) escapes [' ']
    rw [Draft.settle_of_solid hsolid]
    refine .solid hfront (forall_mem_concat_blank habove) ?_ hsolid
    simp [Draft.append, hline, hhead]
  | joint _ _ _ _ hbroken => simp [hkeeps] at hbroken
  | movable hfront habove hline =>
    have hloose := Draft.line_append_of_loose hline escapes [' ']
    have hhead := Draft.head_append_of_loose hline escapes [' ']
    rcases Draft.settle_cases_of_loose hloose (by simp) with ⟨hsolid, guard, hguard, hs⟩ | hs
    · have hextra : '\n' ∉ m.indent ++ guard := by simp [hm.line, hguard]
      refine .solid (.broken hfront hextra) (forall_mem_concat_blank habove) ?_ hsolid
      rw [hs, hhead, Draft.margin_of_frame hframe, hmargin, Mark.margin]
      simp
    · rw [List.append_assoc] at hloose
      rw [hs]
      exact .movable (hhead ▸ hfront) (forall_mem_concat_blank habove) hloose

/-- The line below the mark is begun with its margin, as soon as anything is written on it. -/
theorem At.openLine (h : m.At .below d) (hmargin : d.margin = m.margin) :
    m.At .begun d.openLine := by
  obtain ⟨front, above, hfront, habove, hhead, hline⟩ := h
  refine ⟨front, above, [], hfront, habove, List.forall_mem_nil _, ?_, .inl ?_⟩
  · simp [Draft.openLine, hline, hhead, hmargin]
  · simp [Draft.openLine, hline]

/-- A line that has begun is not begun again. -/
theorem At.openLine_begun (h : m.At .begun d) : d.openLine = d := by
  obtain ⟨_, _, _, _, _, _, _, hline⟩ := h
  refine Draft.openLine_of_ne_fresh ?_
  rcases hline with hline | ⟨hline, -⟩ <;> simp [hline]

/-- A blank on the line below the mark is dropped, or leaves it as blank as it is. -/
theorem At.place_blank_begun (h : m.At .begun d) {policy : Policy}
    (hpolicy : policy.wraps = !d.keepsLines) (next : Option Char) :
    m.At .begun (d.place policy ' ' next).settle := by
  cases hkeeps : d.keepsLines with
  | false =>
    obtain ⟨_, _, _, _, _, _, _, hline⟩ := id h
    have hopened : d.line = .opened := hline.resolve_right (by simp [hkeeps])
    have hplace : d.place policy ' ' next = d.placeBlank := by
      simp [place_blank, hpolicy, hkeeps]
    have hsettle : d.settle = d := by simp [Draft.settle, hopened]
    rw [hplace, Draft.placeBlank_of_atLineStart (by simp [Draft.atLineStart, hopened]), hsettle]
    exact h
  | true =>
    have hnot := h.line_ne_loose
    obtain ⟨front, above, below, hfront, habove, hbelow, hhead, -⟩ := h
    have hplace : d.place policy ' ' next = d.append policy.escapes [' '] := by
      simp [place_blank, hpolicy, hkeeps]
    have hsolid := Draft.line_append_of_not_loose hnot policy.escapes [' ']
    have hframe := Draft.frame_append policy.escapes [' '] d
    rw [hplace, Draft.settle_of_solid hsolid]
    refine ⟨front, above, below ++ [' '], hfront, habove, forall_mem_concat_blank hbelow, ?_,
      .inr ⟨hsolid, by rw [Draft.keepsLines_of_frame hframe, hkeeps]⟩⟩
    rw [Draft.head_append_of_not_loose hnot, Glyph.chars_append, hhead]
    simp

/-- A blank changes the place as `Stand.blank` says, on lines that are broken at blanks and on those
that are not. -/
theorem At.put_blank {place : Stand} (h : m.At place d) (hm : m.Proper)
    (hmargin : d.margin = m.margin) {policy : Policy} (hpolicy : policy.wraps = !d.keepsLines)
    (next : Option Char) : m.At place.blank (d.put policy ' ' next) := by
  cases place with
  | behind room =>
    rw [Draft.put, Draft.openLine_of_ne_fresh h.2.line_ne_fresh]
    cases hkeeps : d.keepsLines with
    | false =>
      have hplace : d.place policy ' ' next = d.placeBlank := by
        simp [place_blank, hpolicy, hkeeps]
      rw [hplace]
      exact h.placeBlank hkeeps hmargin
    | true =>
      have hplace : d.place policy ' ' next = d.append policy.escapes [' '] := by
        simp [place_blank, hpolicy, hkeeps]
      rw [hplace]
      exact h.append_blank hkeeps hmargin hm policy.escapes
  | below =>
    refine (h.openLine hmargin).place_blank_begun ?_ next
    rw [Draft.keepsLines_of_frame d.frame_openLine, hpolicy]
  | begun =>
    rw [Draft.put, h.openLine_begun]
    exact h.place_blank_begun hpolicy next

/-- A blank leaves the layout waiting. -/
theorem Waits.put_blank {place : Stand} (h : m.Waits place .nothing d) {policy : Policy}
    (hpolicy : policy.wraps = !d.keepsLines) (next : Option Char) :
    m.Waits place.blank .nothing (d.put policy ' ' next) := by
  have hframe := Draft.frame_put policy ' ' next d
  exact ⟨h.proper, by rw [Draft.owed_of_frame hframe, h.owed_eq],
    by rw [Draft.margin_of_frame hframe, h.margin],
    h.at_place.put_blank h.proper h.margin hpolicy next⟩

/-- A line end is written for good, and no break comes with it. -/
theorem put_newline (policy : Policy) (next : Option Char) (d : Draft) :
    d.put policy '\n' next = d.openLine.endLine ['\n'] := by
  have hplace : d.openLine.place policy '\n' next = d.openLine.endLine ['\n'] := by
    unfold Draft.place
    rw [if_neg (by simp), if_pos rfl]
  rw [Draft.put, hplace]
  rfl

/-- The second line end behind a mark leaves a line blank. -/
theorem At.parted_endLine (h : m.At .begun d) :
    m.Parted (Glyph.chars (d.endLine ['\n']).head) := by
  obtain ⟨front, above, below, hfront, habove, hbelow, htext⟩ := h.text_begun
  refine ⟨front, above, below, [], hfront, habove, hbelow, ?_⟩
  rw [Draft.chars_head_endLine, htext]
  simp

/-- The first line end behind a mark leaves the layout waiting, and the second does not. -/
theorem Waits.put_newline {place : Stand} (h : m.Waits place .nothing d) (policy : Policy)
    (next : Option Char) :
    m.Opens (Opening.put (.waiting place .nothing) '\n') (d.put policy '\n' next) := by
  rw [Mark.put_newline]
  cases place with
  | behind room =>
    obtain ⟨front, above, hfront, habove, htext⟩ := h.at_place.2.text
    rw [Draft.openLine_of_ne_fresh h.at_place.2.line_ne_fresh]
    refine ⟨h.proper, h.owed_eq, h.margin, front, above, hfront, habove, ?_, rfl⟩
    rw [Draft.chars_head_endLine, htext]
  | below => exact (h.at_place.openLine h.margin).parted_endLine
  | begun =>
    rw [h.at_place.openLine_begun]
    exact h.at_place.parted_endLine

/-- A text with something other than blanks in it has a first such character. -/
theorem exists_first_content {cs : List Char} (h : ∃ c ∈ cs, c ≠ ' ') :
    ∃ below c rest, (∀ b ∈ below, b = ' ') ∧ c ≠ ' ' ∧ cs = below ++ c :: rest := by
  have hfind : (cs.find? (· ≠ ' ')).isSome := by simpa using h
  obtain ⟨c, hc⟩ := Option.isSome_iff_exists.mp hfind
  obtain ⟨hne, below, rest, rfl, hbelow⟩ := List.find?_eq_some_iff_append.mp hc
  exact ⟨below, c, rest, by simpa using hbelow, by simpa using hne, rfl⟩

/-- Content on the line of the mark. It may still be moved to the next one, alone or with the
mark. -/
theorem Bare.reached_append (h : m.Bare d) (hm : m.Proper) (hmargin : d.margin = m.margin)
    {x : Char} {more : List Char} (hx : x ≠ ' ') (hn : '\n' ∉ x :: more) (escapes : Bool) :
    m.Reached (d.append escapes (x :: more)) := by
  have hx' : x ≠ '\n' := fun he => hn (he ▸ List.mem_cons_self)
  have hframe := Draft.frame_append escapes (x :: more) d
  cases h with
  | solid hfront habove hhead hline =>
    refine .settled (.inl ⟨_, _, x, more, hfront, .sameLine habove, hx, hx', ?_⟩)
    simp [Draft.append, hline, hhead]
  | joint hfront habove hhead hline _ =>
    refine .movable (Draft.line_append_of_loose hline _ _) ?_ fun extra hextra => ?_
    · refine ⟨_, _, x, more, hfront, .sameLine (forall_mem_concat_blank habove), hx, hx', ?_⟩
      simp [Draft.text_of_loose hline, hhead]
    · -- The margin that is put down since may hold the first content itself.
      have hsome : ∃ c ∈ extra ++ x :: more, c ≠ ' ' := ⟨x, by simp, hx⟩
      obtain ⟨below, e, rest, hbelow, he, hrest⟩ := exists_first_content hsome
      have hmem : e ∈ extra ++ x :: more := by simp [hrest]
      have he' : e ≠ '\n' := by
        rintro rfl
        exact (List.mem_append.mp hmem).elim hextra hn
      refine ⟨_, _, e, rest, hfront, .nextLine habove hbelow, he, he', ?_⟩
      rw [Draft.head_append_of_loose hline, Draft.margin_of_frame hframe, hhead, hmargin]
      simp [hrest]
  | movable hfront habove hline =>
    refine .movable (Draft.line_append_of_loose hline _ _) ?_ fun extra hextra => ?_
    · refine ⟨_, _, x, more, .same, .sameLine habove, hx, hx', ?_⟩
      simp [Draft.text_of_loose hline, hfront]
    · have hopening : '\n' ∉ m.indent ++ extra := by simp [hm.line, hextra]
      refine ⟨_, _, x, more, .broken hfront hopening, .sameLine habove, hx, hx', ?_⟩
      rw [Draft.head_append_of_loose hline, Draft.margin_of_frame hframe, hmargin, Mark.margin]
      simp

/-- Content on the line below the mark. That line has no break point, so it stays there. -/
theorem At.reached_append (h : m.At .begun d) {x : Char} {more : List Char} (hx : x ≠ ' ')
    (hx' : x ≠ '\n') (escapes : Bool) : m.Reached (d.append escapes (x :: more)) := by
  have hnot := h.line_ne_loose
  obtain ⟨front, above, below, hfront, habove, hbelow, hhead, -⟩ := h
  refine .settled (.inl ⟨_, _, x, more, hfront, .nextLine habove hbelow, hx, hx', ?_⟩)
  rw [Draft.head_append_of_not_loose hnot, Glyph.chars_append, hhead]
  simp

/-- Any other character is the first content, wherever the layout stands. -/
theorem Waits.put_content {place : Stand} (h : m.Waits place .nothing d) {c : Char}
    (hblank : c ≠ ' ') (hnewline : c ≠ '\n') (policy : Policy) (next : Option Char) :
    m.Reached (d.put policy c next) := by
  have hplace : d.openLine.place policy c next =
      d.openLine.append policy.escapes (d.openLine.spelled policy.escapes c next) := by
    unfold Draft.place
    rw [if_neg (fun hc => hblank hc.1), if_neg hnewline]
  have hn := Draft.newline_notMem_spelled hnewline policy.escapes next d.openLine
  obtain ⟨x, more, hspelled, hx⟩ : ∃ x more,
      d.openLine.spelled policy.escapes c next = x :: more ∧ x ≠ ' ' := by
    unfold Draft.spelled
    split
    · exact ⟨'\\', [c], rfl, by decide⟩
    · exact ⟨c, [], rfl, hblank⟩
  rw [Draft.put, hplace]
  rw [hspelled] at hn ⊢
  have hx' : x ≠ '\n' := fun he => hn (he ▸ List.mem_cons_self)
  refine Reached.settle ?_ ?_
  · cases place with
    | behind room =>
      rw [Draft.openLine_of_ne_fresh h.at_place.2.line_ne_fresh]
      exact h.at_place.2.reached_append h.proper h.margin hx hn policy.escapes
    | below => exact (h.at_place.openLine h.margin).reached_append hx hx' policy.escapes
    | begun =>
      rw [h.at_place.openLine_begun]
      exact h.at_place.reached_append hx hx' policy.escapes
  · rw [Draft.owed_of_frame (Draft.frame_append _ _ _), Draft.owed_of_frame d.frame_openLine,
      h.owed_eq]

namespace Opens

variable {o : Opening}

/-- Writing a character is writing it in the opening. This is the step of the simulation. -/
theorem put (h : m.Opens o d) (howed : d.owed = .nothing) {policy : Policy}
    (hpolicy : policy.wraps = !d.keepsLines) (c : Char) (next : Option Char) :
    m.Opens (o.put c) (d.put policy c next) := by
  cases o with
  | met => exact Reached.put h howed policy c next
  | parted => exact Parted.mono h ((d.head_prefix_put policy c next).map Glyph.char)
  | unmade => trivial
  | waiting place owed =>
    obtain rfl : owed = .nothing := (Waits.owed_eq h).symm.trans howed
    have hw : m.Waits place .nothing d := h
    by_cases hblank : c = ' '
    · subst hblank
      exact hw.put_blank hpolicy next
    by_cases hnewline : c = '\n'
    · subst hnewline
      exact hw.put_newline policy next
    · have hmet : Opening.put (.waiting place .nothing) c = .met := by
        simp [Opening.put, hblank, hnewline]
      rw [hmet]
      exact hw.put_content hblank hnewline policy next

/-- Writing characters is writing them in the opening, by induction on them. -/
theorem putAll (h : m.Opens o d) (howed : d.owed = .nothing) {policy : Policy}
    (hpolicy : policy.wraps = !d.keepsLines) (cs : List Char) :
    m.Opens (cs.foldl Opening.put o) (d.putAll policy cs) := by
  induction cs generalizing o d with
  | nil => exact h
  | cons c rest ih =>
    have hframe := Draft.frame_put policy c rest.head? d
    refine ih (h.put howed hpolicy c rest.head?) ?_ ?_
    · rw [Draft.owed_of_frame hframe, howed]
    · rw [Draft.keepsLines_of_frame hframe, hpolicy]

/-- On a line that is kept whole there is no count of blanks. -/
theorem keepsBlanks (h : m.Opens o d) (hkeeps : d.keepsLines = true) : o.KeepsBlanks := by
  rintro room owed rfl
  have hw : m.Waits (.behind (some room)) owed d := h
  have hroom := (Draft.room_eq_some_iff.mp hw.at_place.1).1
  simp [hkeeps] at hroom

/-- Writing running text is writing it in the opening. Where lines are kept whole, runs of blanks
are written in full and come to the same. -/
theorem emit (h : m.Opens o d) {policy : Policy} (hpolicy : policy.wraps = true) (span : String) :
    m.Opens (o.emit span) (d.emit policy span) := by
  have hwraps : (d.effective policy).wraps = !d.keepsLines := by simp [Draft.effective, hpolicy]
  have hflushed : (d.effective policy).wraps = !d.flush.keepsLines := by
    rw [d.keepsLines_flush, hwraps]
  have hall := h.flush.putAll d.owed_flush hflushed (Draft.charsOf (d.effective policy) span)
  cases hkeeps : d.keepsLines with
  | false =>
    have hchars : Draft.charsOf (d.effective policy) span = Writer.squeeze span.toList :=
      if_pos (by rw [hwraps, hkeeps]; rfl)
    rw [hchars] at hall
    rw [Draft.emit, hchars]
    exact hall
  | true =>
    have hchars : Draft.charsOf (d.effective policy) span = span.toList :=
      if_neg (by simp [hwraps, hkeeps])
    have hblanks := h.flush.keepsBlanks (by rw [d.keepsLines_flush, hkeeps])
    rw [hchars] at hall
    rw [Draft.emit, hchars, Opening.emit, Writer.squeeze,
      hblanks.foldl_squeezeAfter false Bool.noConfusion]
    exact hall

/-- Where nothing is waited for, a visit changes nothing: content that is met stays close to the
mark, and a blank line stays below it. -/
theorem visit_of_isDone (h : m.Opens o d) (ho : o.IsDone) {settings : RenderSettings} {v : Visit}
    (hd : d.visit settings v = .ok d') : m.Opens o d' := by
  cases o with
  | waiting place owed => exact absurd rfl (ho place owed)
  | met => exact Reached.visit h hd
  | parted =>
    obtain ⟨steps, _, hsteps⟩ := exists_of_bind_eq_ok hd
    rw [← Draft.run_of_perform hsteps]
    exact Parted.mono h ((d.head_prefix_run steps).map Glyph.char)
  | unmade => trivial

/-- So do all visits that come later, by induction on them. -/
theorem draftOfVisits_of_isDone (h : m.Opens o d) (ho : o.IsDone) {settings : RenderSettings}
    {visits : List Visit} (hd : draftOfVisits settings visits d = .ok d') : m.Opens o d' := by
  induction visits generalizing d with
  | nil =>
    cases hd
    exact h
  | cons v visits ih =>
    obtain ⟨mid, hv, hrest⟩ := exists_of_bind_eq_ok hd
    exact ih (h.visit_of_isDone ho hv) hrest

/-- Markup that is no blank and no line end is the first content, if that is waited for. -/
theorem emit_mark (h : m.Opens o d) {mark : String}
    (hmark : ∃ c cs, mark.toList = c :: cs ∧ c ≠ ' ' ∧ c ≠ '\n') :
    m.Opens o.mark (d.emit .verbatim mark) := by
  obtain ⟨c, cs, hcs, hblank, hnewline⟩ := hmark
  have hflush := h.flush
  show m.Opens o.mark (d.flush.putAll .verbatim mark.toList)
  rcases o.flush_cases with ⟨place, hplace⟩ | hdone
  · have hmet : o.mark = .met := by rw [Opening.mark, hplace]
    rw [hplace] at hflush
    have hw : m.Waits place .nothing d.flush := hflush
    rw [hmet, hcs, Draft.putAll]
    refine Reached.putAll (hw.put_content hblank hnewline _ _) ?_ _ _
    rw [Draft.owed_of_frame (Draft.frame_put _ _ _ _), d.owed_flush]
  · rw [← hdone.mark_flush]
    cases hof : o.flush with
    | waiting place owed => exact absurd hof (hdone place owed)
    | met =>
      rw [hof] at hflush
      exact Reached.putAll hflush d.owed_flush _ _
    | parted =>
      rw [hof] at hflush
      exact Parted.mono hflush ((Draft.head_prefix_putAll _ _ _).map Glyph.char)
    | unmade => trivial

/-- Where nothing is waited for, steps that take back no margin change nothing. They are the rest of
a script whose first step has written markup. -/
theorem run_of_isDone (h : m.Opens o d) (ho : o.IsDone) {steps : List Step}
    (hs : ∀ s ∈ steps, s.isScripted) (hpop : ∀ s ∈ steps, ∀ expected, s ≠ .pop expected) :
    m.Opens o (d.run steps) := by
  cases o with
  | waiting place owed => exact absurd rfl (ho place owed)
  | met => exact Reached.run h hs hpop
  | parted => exact Parted.mono h ((d.head_prefix_run steps).map Glyph.char)
  | unmade => trivial

/-- A visit whose script begins with markup opens an item with it. Containers, breaks and code spans
all do. -/
theorem visit_of_mark (h : m.Opens o d) {settings : RenderSettings} {v : Visit} {mark : String}
    {rest : List Step}
    (hscript : v.script settings d.text.isEmpty = .ok (.emit .verbatim mark :: rest))
    (hmark : ∃ c cs, mark.toList = c :: cs ∧ c ≠ ' ' ∧ c ≠ '\n')
    (hd : d.visit settings v = .ok d') : m.Opens o.mark d' := by
  obtain ⟨steps, hsteps, hperform⟩ := exists_of_bind_eq_ok hd
  cases hscript.symm.trans hsteps
  have hscripted := List.forall_mem_cons.mp (Visit.script_isScripted hscript)
  have hpops : ∀ s ∈ rest, ∀ expected, s ≠ .pop expected := by
    rcases Visit.script_pops hscript with hpop | ⟨_, _, _, he⟩ | ⟨_, he⟩
    · exact (List.forall_mem_cons.mp hpop).2
    · cases he
    · cases he
  rw [← Draft.run_of_perform hperform]
  exact (h.emit_mark hmark).run_of_isDone o.isDone_mark hscripted.2 hpops

end Opens

end Mark

end MarkdownLayout
