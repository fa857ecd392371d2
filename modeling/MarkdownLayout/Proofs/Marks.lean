import MarkdownLayout.Proofs.Draft.Kept

/-!
# Content behind the mark of an item

Content that comes behind the mark of an item is close to it when it stands on the line of the mark
or on the next one, `Mark.Followed`. Once the first content has been reached, `Mark.Reached`,
nothing that is visited moves it further than to the line below the mark: a line is only broken at
its last break point, and as soon as a blank, a line end or a break comes behind the first content,
all that stands in front of it is written for good.
-/

namespace MarkdownLayout

/-- A text whose last line may have been broken: in the place of a blank stands a line end, with the
margin and whatever else opens the new line. -/
inductive Recast (margin text : List Char) : List Char → Prop where
  /-- Nothing has changed. -/
  | same : Recast margin text text
  /-- The line was broken at a blank. -/
  | broken {head tail extra : List Char} (h : text = head ++ ' ' :: tail) (hextra : '\n' ∉ extra) :
      Recast margin text (head ++ '\n' :: (margin ++ extra ++ tail))

/-- What stands between a mark and content that follows it closely. -/
inductive Gap (margin : List Char) : List Char → Prop where
  /-- The content is on the line of the mark. -/
  | sameLine {gap : List Char} (h : ∀ c ∈ gap, c = ' ') : Gap margin gap
  /-- The content is on the next line, behind its margin. -/
  | nextLine {above below : List Char} (habove : ∀ c ∈ above, c = ' ')
      (hbelow : ∀ c ∈ below, c = ' ') : Gap margin (above ++ '\n' :: (margin ++ below))

/-- The mark of an item where it stands. -/
structure Mark where
  /-- The text in front of it. -/
  front : List Char
  /-- What opens the lines around the item. -/
  outer : List Char
  /-- Its characters. -/
  marker : List Char
  /-- What opens the other lines of the item, behind `outer`. -/
  indent : List Char

namespace Mark

/-- What opens the lines of the item below the mark. -/
def margin (m : Mark) : List Char :=
  m.outer ++ m.indent

/-- Content follows the mark on its line or on the next one. -/
def Followed (m : Mark) (text : List Char) : Prop :=
  ∃ front gap c rest, Recast m.outer m.front front ∧ Gap m.margin gap ∧ c ≠ ' ' ∧ c ≠ '\n' ∧
    text = front ++ m.marker ++ gap ++ c :: rest

/-- A line with nothing but its margin stands below the line of the mark, which ends behind it. -/
def Detached (m : Mark) (text : List Char) : Prop :=
  ∃ front rest, Recast m.outer m.front front ∧
    text = front ++ m.marker ++ '\n' :: (m.margin ++ '\n' :: rest)

/-- A line with nothing but its margin and blanks stands below the line of the mark, and nothing but
blanks stands behind the mark. -/
def Parted (m : Mark) (text : List Char) : Prop :=
  ∃ front above below rest, Recast m.outer m.front front ∧ (∀ c ∈ above, c = ' ') ∧
    (∀ c ∈ below, c = ' ') ∧
    text = front ++ m.marker ++ above ++ '\n' :: (m.margin ++ below ++ '\n' :: rest)

/-- Content that follows the mark does so whatever is written behind it. -/
theorem Followed.mono {m : Mark} {text more : List Char} (h : m.Followed text)
    (hmore : text <+: more) : m.Followed more := by
  obtain ⟨front, gap, c, rest, hfront, hgap, hblank, hnewline, rfl⟩ := h
  obtain ⟨back, rfl⟩ := hmore
  exact ⟨front, gap, c, rest ++ back, hfront, hgap, hblank, hnewline, by simp⟩

/-- A blank line below the mark stays there whatever is written behind it. -/
theorem Detached.mono {m : Mark} {text more : List Char} (h : m.Detached text)
    (hmore : text <+: more) : m.Detached more := by
  obtain ⟨front, rest, hfront, rfl⟩ := h
  obtain ⟨back, rfl⟩ := hmore
  exact ⟨front, rest ++ back, hfront, by simp⟩

/-- So does one with blanks in it. -/
theorem Parted.mono {m : Mark} {text more : List Char} (h : m.Parted text)
    (hmore : text <+: more) : m.Parted more := by
  obtain ⟨front, above, below, rest, hfront, habove, hbelow, rfl⟩ := h
  obtain ⟨back, rfl⟩ := hmore
  exact ⟨front, above, below, rest ++ back, hfront, habove, hbelow, by simp⟩

/-- The first content of an item is written for good, or will be once the breaks owed are paid. -/
def Settled (m : Mark) (d : Draft) : Prop :=
  m.Followed (Glyph.chars d.head) ∨ m.Followed d.text ∧ d.owed ≠ .nothing

namespace Settled

variable {m : Mark} {d : Draft}

/-- Content in front of the break point stays where it is as long as the text there does. -/
theorem of_head {d' : Draft} (h : m.Followed (Glyph.chars d.head)) (hd : d.head <+: d'.head) :
    m.Settled d' :=
  .inl (h.mono (hd.map Glyph.char))

/-- Content anywhere in the text is settled once the whole text stands in front of the break
point. -/
theorem of_text {d' : Draft} (h : m.Followed d.text) (hd : d.glyphs <+: d'.head) :
    m.Settled d' :=
  .inl (h.mono (hd.map Glyph.char))

/-- Settled content can be read in the text as it stands. -/
theorem text (h : m.Settled d) : m.Followed d.text := by
  rcases h with h | ⟨h, _⟩
  · exact h.mono (d.head_prefix_glyphs.map Glyph.char)
  · exact h

/-- Whatever step comes, settled content stays where it is: what is owed is paid before anything
else is written, and a payment fixes the text. -/
theorem apply (h : m.Settled d) (s : Step) : m.Settled (d.apply s) := by
  rcases h with h | ⟨h, howed⟩
  · exact of_head h (d.head_prefix_apply s)
  cases s with
  | emit policy span =>
    refine .inl (h.mono ((Draft.text_prefix_head_flush howed).trans ?_))
    exact (Draft.head_prefix_putAll _ _ _).map Glyph.char
  | owe owed =>
    exact .inr ⟨by rwa [Draft.apply, Draft.text_owe], Draft.owed_owe_ne_nothing (.inl howed)⟩
  | flush => exact .inl (h.mono (Draft.text_prefix_head_flush howed))
  | pop expected =>
    rcases d.apply_pop_cases expected with he | he <;> rw [he]
    · exact .inr ⟨h, howed⟩
    · exact .inr ⟨h, howed⟩
  | startLine => exact of_text h (List.prefix_append _ _)
  | push segment | keepLines on | setWidth width => exact .inr ⟨h, howed⟩

/-- The same for a run of steps, by induction. -/
theorem run (h : m.Settled d) (steps : List Step) : m.Settled (d.run steps) := by
  induction steps generalizing d with
  | nil => exact h
  | cons s steps ih => exact ih (h.apply s)

end Settled

/-- The first content of an item is there, and no break that may still come puts a blank line in
front of it. -/
inductive Reached (m : Mark) (d : Draft) : Prop where
  /-- It is not moved any more. -/
  | settled (h : m.Settled d)
  /-- It stands behind the break point, and may be moved to a line with at least the present
  margin. -/
  | movable {tail : List Char} {escapes : Bool} (hline : d.line = .loose tail escapes)
      (h : m.Followed d.text)
      (hmoved : ∀ extra, '\n' ∉ extra →
        m.Followed (Glyph.chars d.head ++ '\n' :: (d.margin ++ extra ++ tail)))

namespace Reached

variable {m : Mark} {d : Draft}

/-- Content that has been reached can be read in the text, moved or not. -/
theorem text (h : m.Reached d) : m.Followed d.text := by
  cases h with
  | settled h => exact h.text
  | movable _ h _ => exact h

/-- Where nothing is owed the first content is written for good, or stands behind the break point.
Spans are written in this situation, so these are the cases for a character. -/
theorem kept_or_movable (h : m.Reached d) (howed : d.owed = .nothing) :
    m.Followed (Glyph.chars d.head) ∨
      ∃ tail escapes, d.line = .loose tail escapes ∧ m.Followed d.text ∧
        ∀ extra, '\n' ∉ extra →
          m.Followed (Glyph.chars d.head ++ '\n' :: (d.margin ++ extra ++ tail)) := by
  cases h with
  | settled h => exact .inl (h.resolve_right fun hdue => hdue.2 howed)
  | movable hline h hmoved => exact .inr ⟨_, _, hline, h, hmoved⟩

/-- Characters behind the first content leave it as close to the mark, also when they are moved with
it. -/
theorem append (h : m.Reached d) (howed : d.owed = .nothing) (escapes : Bool) (cs : List Char) :
    m.Reached (d.append escapes cs) := by
  rcases h.kept_or_movable howed with h | ⟨tail, first, hline, h, hmoved⟩
  · exact .settled (.of_head h (d.head_prefix_append escapes cs))
  -- The tail grows, and so does what it becomes when it is moved.
  have hhead := Draft.head_append_of_loose hline escapes cs
  have hmargin : (d.append escapes cs).margin = d.margin :=
    Draft.margin_of_frame (Draft.frame_append escapes cs d)
  refine .movable (Draft.line_append_of_loose hline escapes cs) ?_ fun extra hextra => ?_
  · rw [Draft.text_append]
    exact h.mono (List.prefix_append _ _)
  · rw [hhead, hmargin]
    exact (hmoved extra hextra).mono ⟨cs, by simp⟩

/-- A break moves the first content one line down at most, and no second break can reach it. -/
theorem settle (h : m.Reached d) (howed : d.owed = .nothing) : m.Reached d.settle := by
  rcases d.settle_cases with ⟨tail, escapes, hline, hs⟩ | ⟨hs, _⟩
  · rcases h.kept_or_movable howed with h | ⟨tail', escapes', hline', h, hmoved⟩
    · exact .settled (.of_head h d.head_prefix_settle)
    cases hline.symm.trans hline'
    have hguarded := hmoved _ (Draft.newline_notMem_tailGuard escapes tail)
    rw [hs]
    exact .settled (.inl (by simpa [Draft.rewind] using hguarded))
  · rw [hs]
    exact h

/-- A character may come behind the first content: it is the step from which spans and visits are
built. -/
theorem put (h : m.Reached d) (howed : d.owed = .nothing) (policy : Policy) (c : Char)
    (next : Option Char) : m.Reached (d.put policy c next) := by
  rcases h.kept_or_movable howed with hkept | ⟨tail, escapes, hline, _⟩
  · exact .settled (.of_head hkept (d.head_prefix_put policy c next))
  have hbegun : d.atLineStart = false := by simp [Draft.atLineStart, hline]
  rw [Draft.put, Draft.openLine_of_ne_fresh (by simp [hline])]
  refine settle ?_ (by rw [Draft.owed_of_frame (Draft.frame_place policy c next d), howed])
  rcases Draft.place_cases policy c next d with ⟨_, hp⟩ | ⟨_, hp⟩ | ⟨_, hp⟩ <;> rw [hp]
  · have hhead : d.placeBlank.head = d.glyphs := by rw [Draft.placeBlank_of_begun hbegun]
    exact .settled (.of_text h.text ⟨[], by rw [hhead, List.append_nil]⟩)
  · exact .settled (.of_text h.text (List.prefix_append _ _))
  · exact h.append howed _ _

/-- So may the characters of a span. None of them owes a break, so the step applies to each. -/
theorem putAll (h : m.Reached d) (howed : d.owed = .nothing) (policy : Policy) (cs : List Char) :
    m.Reached (d.putAll policy cs) := by
  induction cs generalizing d with
  | nil => exact h
  | cons c rest ih =>
    have howed' : (d.put policy c rest.head?).owed = .nothing := by
      rw [Draft.owed_of_frame (Draft.frame_put policy c rest.head? d), howed]
    exact ih (h.put howed policy c rest.head?) howed'

/-- Paying breaks settles the first content for good. -/
theorem flush (h : m.Reached d) : m.Reached d.flush := by
  by_cases howed : d.owed = .nothing
  · rw [Draft.flush, if_pos howed]
    exact h
  · exact .settled (.inl (h.text.mono (Draft.text_prefix_head_flush howed)))

/-- What has been written is settled as soon as a break is owed. This is how the exit from a
container fixes its content before its margin is gone. -/
theorem settled_owe (h : m.Followed d.text) {owed : Owed} (hne : owed ≠ .nothing) :
    m.Settled (d.apply (.owe owed)) :=
  .inr ⟨by rwa [Draft.apply, Draft.text_owe], Draft.owed_owe_ne_nothing (.inr hne)⟩

/-- A step that takes back no margin may come behind the first content. -/
theorem apply (h : m.Reached d) {s : Step} (hs : s.isScripted)
    (hpop : ∀ expected, s ≠ .pop expected) : m.Reached (d.apply s) := by
  cases h with
  | settled h => exact .settled (h.apply s)
  | movable hline h hmoved =>
    have hr : m.Reached d := .movable hline h hmoved
    cases s with
    | emit policy span => exact hr.flush.putAll d.owed_flush _ _
    | owe owed =>
      rcases d.apply_owe_cases owed with he | he <;> rw [he]
      · exact .movable hline h hmoved
      · exact hr
    | flush => exact hr.flush
    | push segment =>
      refine .movable hline h fun extra hextra => ?_
      have hsegment : '\n' ∉ segment.toList := Step.newline_notMem_of_isScripted hs
      have hmargin : (d.pushMargin segment).margin = d.margin ++ segment.toList := by
        simp [Draft.margin, Draft.pushMargin]
      have hboth := hmoved (segment.toList ++ extra) (by simp [hsegment, hextra])
      rw [Draft.apply, hmargin]
      simpa [Draft.pushMargin] using hboth
    | pop expected => exact absurd rfl (hpop expected)
    | keepLines on => exact .movable hline h hmoved
    | startLine | setWidth width => cases hs

/-- So may a run of steps, as long as the margin under which the content stands is there. -/
theorem run (h : m.Reached d) {steps : List Step} (hs : ∀ s ∈ steps, s.isScripted)
    (hpop : ∀ s ∈ steps, ∀ expected, s ≠ .pop expected) : m.Reached (d.run steps) := by
  induction steps generalizing d with
  | nil => exact h
  | cons s steps ih =>
    obtain ⟨hfirst, hrest⟩ := List.forall_mem_cons.mp hs
    obtain ⟨hpops, hpoprest⟩ := List.forall_mem_cons.mp hpop
    exact ih (h.apply hfirst hpops) hrest hpoprest

end Reached

end Mark

/-- A script takes back a margin only to owe a break at once, or after it has owed one. -/
theorem Visit.script_pops {settings : RenderSettings} {unwritten : Bool} {v : Visit}
    {steps : List Step} (h : v.script settings unwritten = .ok steps) :
    (∀ s ∈ steps, ∀ expected, s ≠ .pop expected) ∨
      (∃ expected owed, owed ≠ .nothing ∧ steps = [.pop expected, .owe owed]) ∨
      ∃ rest, steps = .owe .blankLine :: rest := by
  obtain ⟨event, element, slot⟩ := v
  cases element with
  | leaf leaf =>
    cases leaf with
    | foreign kind => cases h
    | codeBlock content info =>
      cases h
      exact .inr (.inr ⟨_, rfl⟩)
    | _ =>
      cases h
      exact .inl (by simp)
  | container container =>
    cases container with
    | foreign kind => cases event <;> cases h
    | listItem =>
      obtain ⟨item, _, rfl | rfl⟩ := Visit.script_listItem h
      · exact .inl (by simp)
      · exact .inr (.inl ⟨_, _, by decide, rfl⟩)
    | blockQuote =>
      cases event <;> cases h
      · exact .inl (by simp)
      · exact .inr (.inl ⟨_, _, by decide, rfl⟩)
      · exact .inr (.inl ⟨_, _, by decide, rfl⟩)
    | document => cases unwritten <;> cases event <;> cases h <;> exact .inl (by simp)
    | link url title | image url title =>
      have hdestination : ∀ s ∈ destinationSteps url title, ∀ expected, s ≠ .pop expected := by
        intro s hs expected
        obtain ⟨policy, span, rfl⟩ := exists_emit_of_mem_destinationSteps url title s hs
        simp
      cases event <;> cases h
      · exact .inl (by simp)
      · exact .inl hdestination
      · exact .inl hdestination
    | _ => cases event <;> cases h <;> exact .inl (by simp)

namespace Mark.Reached

variable {m : Mark} {d d' : Draft} {settings : RenderSettings}

/-- A visit may come behind the first content. -/
theorem visit (h : m.Reached d) {v : Visit} (hd : d.visit settings v = .ok d') :
    m.Reached d' := by
  obtain ⟨steps, hscript, hsteps⟩ := exists_of_bind_eq_ok hd
  rw [← Draft.run_of_perform hsteps]
  rcases Visit.script_pops hscript with hpop | ⟨expected, owed, hne, rfl⟩ | ⟨rest, rfl⟩
  · exact h.run (Visit.script_isScripted hscript) hpop
  · -- Without the margin the content could be moved further out, but the break comes first.
    have htext : (d.apply (.pop expected)).text = d.text := by
      rcases d.apply_pop_cases expected with he | he <;> rw [he]
      rfl
    exact .settled (settled_owe (htext ▸ h.text) hne)
  · exact .settled ((settled_owe h.text (by decide)).run rest)

/-- Whatever is visited after the first content of an item, it stays close to the mark. -/
theorem draftOfVisits (h : m.Reached d) {visits : List Visit}
    (hd : draftOfVisits settings visits d = .ok d') : m.Reached d' := by
  induction visits generalizing d with
  | nil =>
    cases hd
    exact h
  | cons v visits ih =>
    obtain ⟨mid, hv, hrest⟩ := exists_of_bind_eq_ok hd
    exact ih (h.visit hv) hrest

end Mark.Reached

end MarkdownLayout
