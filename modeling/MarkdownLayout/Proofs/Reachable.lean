import MarkdownLayout.Proofs.Draft.Step

/-!
# Reachable writers

A writer may be used in any order, also after a step that was refused and after its text has been
handed over. The text is then gone, but not what the writer knows about its last line, so the break
point may lie behind the end of the octets or inside a character, and a span may end in an error.
Such a writer stands for no draft. What is said here is therefore said about octets.

The main statements tell what the parts of a step can do: `leftBy_settle_cases` for the break of a
line and `toList_breaksOwed` for the breaks owed.
-/

namespace MarkdownLayout

/-- Whether the margin that a step puts down, if it does, is on one line. -/
def Step.onOneLine : Step → Bool
  | .push segment => '\n' ∉ segment.toList
  | _ => true

namespace Writer

/-- The writer that an action leaves, whether or not it fails. -/
def leftBy {α : Type} (action : Writing α) (w : Writer) : Writer :=
  match action w with
  | .ok _ w' => w'
  | .error _ w' => w'

/-- A writer that some use of a new one leads to. All margins are on one line. -/
inductive Reachable : Writer → Prop
  /-- A new writer. -/
  | fresh (width : Int) : Reachable { width }
  /-- What a step leaves, whether or not it is refused. -/
  | step {w : Writer} {s : Step} : Reachable w → s.onOneLine → Reachable (s.after w)
  /-- What is left once the text has been handed over. -/
  | detach {w : Writer} : Reachable w → Reachable (w.leftBy detach)

/-- A writer that some use of a new one leads to, whatever margins have been put down. -/
inductive Used : Writer → Prop
  /-- A new writer. -/
  | fresh (width : Int) : Used { width }
  /-- What a step leaves, whether or not it is refused. -/
  | step {w : Writer} (s : Step) : Used w → Used (s.after w)
  /-- What is left once the text has been handed over. -/
  | detach {w : Writer} : Used w → Used (w.leftBy detach)

/-- What is left after a step is what its action leaves, error or not. -/
theorem after_eq_leftBy (s : Step) (w : Writer) : s.after w = w.leftBy s.act := by
  unfold Step.after leftBy
  cases s.act w <;> rfl

/-- The octets are handed over, and nothing else changes, unless that is refused. -/
theorem leftBy_detach_cases (w : Writer) :
    w.leftBy detach = w ∨ w.leftBy detach = { w with buffer := #[] } := by
  unfold leftBy detach
  cases w.segments.isEmpty with
  | true => exact .inr rfl
  | false => exact .inl rfl

/-- A run leads from a reachable writer to a reachable one, refused steps included. -/
theorem Reachable.run {w : Writer} (h : w.Reachable) {steps : List Step}
    (hs : ∀ s ∈ steps, s.onOneLine) : (w.run steps).Reachable := by
  induction steps generalizing w with
  | nil => exact h
  | cons s steps ih =>
    obtain ⟨hfirst, hrest⟩ := List.forall_mem_cons.mp hs
    exact ih (h.step hfirst) hrest

/-- The line has been broken at `k`: all that follows is on a line of its own. If it cannot be read,
the break point stays where it was. -/
structure Broken (k : Nat) (w w' : Writer) : Prop where
  /-- The margins are the same. -/
  segments : w'.segments = w.segments
  /-- So are their octets. -/
  margin : w'.margin = w.margin
  /-- What follows the break point is moved, perhaps with something in front that ends no line. -/
  buffer : ∃ guard, newline ∉ guard ∧ w'.buffer.toList = w.buffer.toList.take k ++
    newline :: (w.margin.toList ++ (guard ++ w.buffer.toList.drop (k + 1)))
  /-- The new line has its margin. -/
  opened : w'.atLineStart = true → w'.marginWritten = true
  /-- The break point is gone, or the line that it was on has begun. -/
  breakPoint : w'.breakPoint = none ∨
    w'.breakPoint = some k ∧ w'.atLineStart = false ∧ k < w.buffer.size

/-- What follows a place, as a list. -/
theorem toList_extract_size (octets : Array UInt8) (start : Nat) :
    (octets.extract start octets.size).toList = octets.toList.drop start := by
  rw [Array.toList_extract, List.extract_eq_take_drop]
  exact List.take_of_length_le (by simp)

/-- A break at the break point moves what follows it. The only error is one about octets that are
not characters, and it comes when these have been moved already. -/
theorem broken_rewind {w : Writer} {k : Nat} (hk : w.breakPoint = some k)
    (hs : w.atLineStart = false) : Broken k w (w.leftBy (rewind k)) := by
  have htail := toList_extract_size w.buffer (k + 1)
  unfold leftBy rewind
  dsimp only
  generalize hg : (if w.tailEscapes = some true ∧
    (w.buffer.extract (k + 1) w.buffer.size)[0]?.any opensBlockOctet = true
    then #[backslash] else #[]) = guard
  have hguard : newline ∉ guard.toList := by
    rw [← hg]
    split <;> decide
  have hbuffer : ((w.buffer.take k).push newline ++ w.margin ++ guard ++
      w.buffer.extract (k + 1) w.buffer.size).toList = w.buffer.toList.take k ++
        newline :: (w.margin.toList ++ (guard.toList ++ w.buffer.toList.drop (k + 1))) := by
    rw [Array.toList_append, htail]
    simp
  cases hd : Text.Utf8.decode (w.buffer.extract (k + 1) w.buffer.size).toList with
  | ok cs => exact ⟨rfl, rfl, ⟨guard.toList, hguard, hbuffer⟩, fun _ => rfl, .inl rfl⟩
  | error fault =>
    -- Nothing can be read, so there is something behind the break point.
    have hlt : k < w.buffer.size := by
      refine Nat.lt_of_not_le fun hge => ?_
      have hnil : w.buffer.toList.drop (k + 1) = [] := by
        apply List.drop_eq_nil_of_le
        rw [Array.length_toList]
        omega
      rw [htail, hnil] at hd
      cases hd
    refine ⟨rfl, rfl, ⟨guard.toList, hguard, hbuffer⟩, fun hn => ?_, .inr ⟨hk, hs, hlt⟩⟩
    rw [hs] at hn
    cases hn

/-- A line is left as it is, or broken at its break point. -/
theorem leftBy_settle_cases (w : Writer) :
    w.leftBy settle = w ∨ ∃ k, w.breakPoint = some k ∧ Broken k w (w.leftBy settle) := by
  cases hk : w.breakPoint with
  | none =>
    left
    simp [leftBy, settle, hk]
  | some k =>
    by_cases hb : 0 < w.width ∧ w.width < w.column ∧ ¬ w.atLineStart
    · right
      have hsettle : w.leftBy settle = w.leftBy (rewind k) := by
        simp [leftBy, settle, hk, hb]
      rw [hsettle]
      exact ⟨k, rfl, broken_rewind hk (by simpa using hb.2.2)⟩
    · left
      simp only [leftBy, settle, hk, if_neg hb]

/-- Whether a text needs no line end for a blank line at its end: nothing has been written, or a
line end and nothing else, or two of them in a row. -/
def Spaced (octets : List UInt8) : Prop :=
  octets = [] ∨ octets = [newline] ∨ [newline, newline] <:+ octets

instance (octets : List UInt8) : Decidable (Spaced octets) :=
  inferInstanceAs (Decidable (octets = [] ∨ octets = [newline] ∨ [newline, newline] <:+ octets))

/-- A blank line outweighs every other break. -/
theorem owe_blankLine (w : Writer) : w.owe .blankLine = { w with owed := .blankLine } := by
  unfold owe
  cases h : w.owed <;> simp [Owed.level, ← h]

/-- Line ends at the end of the text are counted up to a limit. -/
theorem trailingNewlines_eq (w : Writer) (limit : Nat) :
    w.trailingNewlines limit =
      min limit (w.buffer.toList.reverse.takeWhile (· == newline)).length := by
  unfold trailingNewlines
  dsimp only
  have hlast : (w.buffer.toList.drop (w.buffer.size - limit)).reverse =
      w.buffer.toList.reverse.take limit := by
    rw [List.take_reverse, Array.length_toList]
  rw [toList_extract_size, hlast, ← List.take_takeWhile, List.length_take]

/-- The breaks owed, read off the end of the text. -/
theorem toList_breaksOwed (w : Writer) :
    w.breaksOwed.toList =
      match w.owed with
      | .nothing => []
      | .lineEnd =>
        if w.buffer.toList = [] ∨ w.buffer.toList.getLast? = some newline then [] else [newline]
      | .blankLine =>
        if Spaced w.buffer.toList then []
        else if w.buffer.toList.getLast? = some newline then w.margin.toList ++ [newline]
        else newline :: (w.margin.toList ++ [newline]) := by
  unfold breaksOwed
  rw [trailingNewlines_eq]
  dsimp only
  -- Only the last two octets count, and they come first in `r`.
  generalize hr : w.buffer.toList.reverse = r
  have hb : w.buffer.toList = r.reverse := by rw [← hr, List.reverse_reverse]
  have hsize : w.buffer.size = r.length := by rw [← hr, List.length_reverse, Array.length_toList]
  have hsuffix : [newline, newline] <:+ r.reverse ↔ [newline, newline] <+: r := by
    rw [← List.reverse_suffix]
    rfl
  rw [hb, hsize]
  simp only [Spaced, hsuffix]
  cases w.owed with
  | nothing => simp [Owed.level]
  | lineEnd =>
    rcases r with _ | ⟨a, rest⟩
    · simp [Owed.level]
    · by_cases ha : a = newline <;> simp [Owed.level, ha]
  | blankLine =>
    rcases r with _ | ⟨a, _ | ⟨b, rest⟩⟩
    · simp [Owed.level]
    · by_cases ha : a = newline <;> simp [Owed.level, ha]
    · have hne : ∀ x y : UInt8, rest.reverse ++ [x, y] ≠ [newline] := fun x y h => by
        simpa using congrArg List.length h
      by_cases ha : a = newline <;> by_cases hbl : b = newline <;>
        simp [Owed.level, ha, hbl, hne, eq_comm (a := newline)]

/-- Two writers with the same margins. -/
structure SameMargins (w w' : Writer) : Prop where
  /-- The margins put down. -/
  segments : w'.segments = w.segments
  /-- Their octets. -/
  margin : w'.margin = w.margin

namespace SameMargins

/-- A writer has its own margins. -/
theorem refl (w : Writer) : SameMargins w w :=
  ⟨rfl, rfl⟩

/-- Operations that keep the margins may follow one another. -/
theorem trans {w w' w'' : Writer} (h : SameMargins w w') (h' : SameMargins w' w'') :
    SameMargins w w'' :=
  ⟨h'.segments.trans h.segments, h'.margin.trans h.margin⟩

/-- Writing a margin does not change what the margins are. -/
theorem openLine (w : Writer) : SameMargins w w.openLine := by
  unfold Writer.openLine
  split <;> exact ⟨rfl, rfl⟩

/-- Nor does a character, however it is received. -/
theorem place (policy : Policy) (c : Char) (next : Option Char) (w : Writer) :
    SameMargins w (w.place policy c next) := by
  unfold Writer.place placeBlank
  split
  · split <;> exact ⟨rfl, rfl⟩
  · split <;> exact ⟨rfl, rfl⟩

/-- Nor does a break, also one that ends in an error. -/
theorem settle (w : Writer) : SameMargins w (w.leftBy settle) := by
  rcases leftBy_settle_cases w with hs | ⟨k, _, hb⟩
  · rw [hs]
    exact refl w
  · exact ⟨hb.segments, hb.margin⟩

/-- Nor does a character with the break that it brings about. -/
theorem put (policy : Policy) (c : Char) (next : Option Char) (w : Writer) :
    SameMargins w (w.leftBy (put policy c next)) :=
  ((openLine w).trans (place policy c next w.openLine)).trans
    (settle (w.openLine.place policy c next))

/-- Nor do breaks that are paid. -/
theorem flush (w : Writer) : SameMargins w w.flush := by
  unfold Writer.flush
  split <;> exact ⟨rfl, rfl⟩

/-- Nor do breaks that are owed. -/
theorem owe (owed : Owed) (w : Writer) : SameMargins w (w.owe owed) := by
  unfold Writer.owe
  split <;> exact ⟨rfl, rfl⟩

/-- Nor does handing over the octets, after which the writer may be used again. -/
theorem detach (w : Writer) : SameMargins w (w.leftBy detach) := by
  rcases leftBy_detach_cases w with hd | hd <;> rw [hd] <;> exact ⟨rfl, rfl⟩

end SameMargins

/-- What every character keeps is kept by a span, also by one that ends in an error. -/
theorem leftBy_putAll {P : Writer → Prop} {policy : Policy}
    (hput : ∀ c next w, P w → P (w.leftBy (put policy c next))) (cs : List Char) {w : Writer}
    (h : P w) : P (w.leftBy (putAll policy cs)) := by
  induction cs generalizing w with
  | nil => exact h
  | cons c rest ih =>
    have hfirst := hput c rest.head? w h
    have hbind : putAll policy (c :: rest) w =
        EStateM.bind (put policy c rest.head?) (fun _ => putAll policy rest) w := rfl
    unfold leftBy at hfirst ⊢
    rw [hbind]
    unfold EStateM.bind
    cases hc : put policy c rest.head? w with
    | ok u w' =>
      rw [hc] at hfirst
      exact ih hfirst
    | error error w' =>
      rw [hc] at hfirst
      exact hfirst

/-- A span is written after the breaks owed. -/
theorem after_emit (policy : Policy) (span : String) (w : Writer) :
    (Step.emit policy span).after w = w.flush.leftBy
      (putAll (w.effective policy) (Draft.charsOf (w.effective policy) span)) :=
  after_eq_leftBy _ w

/-- A span keeps the margins, by what every character keeps. -/
theorem SameMargins.after_emit (policy : Policy) (span : String) (w : Writer) :
    SameMargins w ((Step.emit policy span).after w) := by
  rw [Writer.after_emit]
  refine leftBy_putAll (P := SameMargins w) ?_ _ (.flush w)
  exact fun c next w' hw => hw.trans (.put _ c next w')

/-- A margin is taken back unless that is refused. -/
theorem after_pop_cases (expected : Option String) (w : Writer) :
    (Step.pop expected).after w = w ∨
      ∃ outer top, w.segments = outer ++ [top] ∧ (Step.pop expected).after w =
        { w with
          segments := outer
          margin := w.margin.take (w.margin.size - (Text.Utf8.octets top).length) } := by
  have hafter : (Step.pop expected).after w =
      w.leftBy (EStateM.bind (popMargin expected) fun _ => pure ()) := after_eq_leftBy _ w
  rw [hafter]
  unfold leftBy EStateM.bind popMargin
  cases hl : w.segments.getLast? with
  | none => exact .inl rfl
  | some top =>
    obtain ⟨outer, ho⟩ := List.getLast?_eq_some_iff.mp hl
    by_cases he : expected = none ∨ expected = some top
    · refine .inr ⟨outer, top, ho, ?_⟩
      simp only [if_pos he]
      rw [ho, List.dropLast_concat]
      rfl
    · left
      simp only [if_neg he]

/-- The octets that open a line are those of the margins put down. -/
def Tied (w : Writer) : Prop :=
  w.margin.toList = w.segments.flatMap Text.Utf8.octets

namespace Tied

variable {w : Writer}

/-- Whether octets and margins agree depends on these two only. -/
theorem of_same {w' : Writer} (h : w.Tied) (hs : SameMargins w w') : w'.Tied := by
  rw [Tied, hs.margin, hs.segments]
  exact h

/-- A margin that is put down adds its octets at the end of the others. -/
theorem push (h : w.Tied) (segment : String) : (w.pushMargin segment).Tied := by
  have hmargin : w.margin.toList = w.segments.flatMap Text.Utf8.octets := h
  simp [Tied, pushMargin, hmargin]

/-- What is taken back are the octets of the innermost margin. -/
theorem pop (h : w.Tied) (expected : Option String) : ((Step.pop expected).after w).Tied := by
  rcases after_pop_cases expected w with he | ⟨outer, top, ho, he⟩
  · rw [he]
    exact h
  · have hoctets : w.margin.toList = w.segments.flatMap Text.Utf8.octets := h
    rw [ho, List.flatMap_append, List.flatMap_singleton] at hoctets
    have hsize : w.margin.size - (Text.Utf8.octets top).length =
        (outer.flatMap Text.Utf8.octets).length := by
      rw [← Array.length_toList, hoctets, List.length_append]
      omega
    rw [he]
    show (w.margin.take _).toList = outer.flatMap Text.Utf8.octets
    rw [hsize, Array.take_eq_extract, Array.toList_extract, List.extract_eq_take_drop, hoctets]
    simp

/-- What a step keeps. -/
theorem after (h : w.Tied) (s : Step) : (s.after w).Tied := by
  cases s with
  | emit policy span => exact h.of_same (.after_emit policy span w)
  | owe owed => exact h.of_same (.owe owed w)
  | flush => exact h.of_same (.flush w)
  | push segment => exact h.push segment
  | pop expected => exact h.pop expected
  | keepLines on | startLine | setWidth width => exact h

end Tied

/-- The margins of a writer are those that its octets say, however it has been used. -/
theorem Used.tied {w : Writer} (h : w.Used) : w.Tied := by
  induction h with
  | fresh width => rfl
  | step s _ ih => exact ih.after s
  | detach _ ih => exact ih.of_same (.detach _)

/-- The octets that open a line are those of the margins put down, which are on one line each. -/
structure Margined (w : Writer) : Prop where
  /-- The octets are those of the margins. -/
  octets : w.margin.toList = w.segments.flatMap Text.Utf8.octets
  /-- No margin ends a line. -/
  lines : ∀ segment ∈ w.segments, '\n' ∉ segment.toList

namespace Margined

variable {w : Writer}

/-- No margin holds a line end, so neither do the octets that open a line. -/
theorem newline_notMem (h : w.Margined) : newline ∉ w.margin.toList := by
  rw [h.octets]
  intro hb
  obtain ⟨segment, hs, hm⟩ := List.mem_flatMap.mp hb
  exact Text.Utf8.newline_notMem_encode (h.lines segment hs) hm

/-- The same where all margins are on one line. -/
theorem of_same {w' : Writer} (h : w.Margined) (hs : SameMargins w w') : w'.Margined := by
  refine ⟨Tied.of_same h.octets hs, ?_⟩
  rw [hs.segments]
  exact h.lines

/-- A margin on one line may be put down. -/
theorem push (h : w.Margined) {segment : String} (hs : '\n' ∉ segment.toList) :
    (w.pushMargin segment).Margined := by
  refine ⟨Tied.push h.octets segment, ?_⟩
  intro other ho
  rcases List.mem_append.mp ho with hm | hm
  · exact h.lines other hm
  · rw [List.mem_singleton.mp hm]
    exact hs

/-- What is left of the margins when one is taken back, or refused, is on one line each. -/
theorem pop (h : w.Margined) (expected : Option String) :
    ((Step.pop expected).after w).Margined := by
  refine ⟨Tied.pop h.octets expected, ?_⟩
  rcases after_pop_cases expected w with he | ⟨outer, top, ho, he⟩ <;> rw [he]
  · exact h.lines
  · intro segment hm
    refine h.lines segment ?_
    rw [ho]
    exact List.mem_append_left [top] hm

/-- What a step keeps. -/
theorem after (h : w.Margined) {s : Step} (hs : s.onOneLine) : (s.after w).Margined := by
  cases s with
  | emit policy span => exact h.of_same (.after_emit policy span w)
  | owe owed => exact h.of_same (.owe owed w)
  | flush => exact h.of_same (.flush w)
  | push segment => exact h.push (of_decide_eq_true hs)
  | pop expected => exact h.pop expected
  | keepLines on | startLine | setWidth width => exact ⟨h.octets, h.lines⟩

end Margined

/-- The margins of a reachable writer are those that its octets say. -/
theorem Reachable.margined {w : Writer} (h : w.Reachable) : w.Margined := by
  induction h with
  | fresh width => exact ⟨rfl, fun _ hs => absurd hs List.not_mem_nil⟩
  | step _ hs ih => exact ih.after hs
  | detach _ ih => exact ih.of_same (.detach _)

end Writer

end MarkdownLayout
