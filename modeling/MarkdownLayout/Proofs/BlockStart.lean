import MarkdownLayout.Proofs.Draft.Shell
import MarkdownLayout.Proofs.Draft.Spelling
import MarkdownLayout.Proofs.Runs

/-!
# Text at the start of a line

A character that would open a block gets a backslash where it comes first on a line of its own. This
covers all lines of a text but the first one in a shell: there the mark stands in front, so the
character is taken for one within the line. The main statement is `render_nest_opens_iff`: behind
marks and margins no line begins with such a character, except the first one when there is a shell
and the text itself begins so.
-/

namespace MarkdownLayout

/-- Whether a line begins with a character that would open a block. -/
def opens (line : List Char) : Bool :=
  line.head?.any (· ∈ ['-', '+', '#', '='])

/-- Lines of which the first has a mark in front and the others a margin. -/
def hang (mark margin : List Char) : List (List Char) → List Char
  | [] => []
  | first :: rest => mark ++ first ++ rest.flatMap fun line => '\n' :: (margin ++ line)

theorem hang_append (mark margin : List Char) (front : List (List Char)) (last cs : List Char) :
    hang mark margin (front ++ [last ++ cs]) = hang mark margin (front ++ [last]) ++ cs := by
  cases front <;> simp [hang]

theorem hang_concat {lines : List (List Char)} (h : lines ≠ []) (mark margin line : List Char) :
    hang mark margin (lines ++ [line]) = hang mark margin lines ++ '\n' :: (margin ++ line) := by
  obtain ⟨first, rest, rfl⟩ := List.exists_cons_of_ne_nil h
  simp [hang]

/-- Lines that do not open a block, except the first, which does so if `first` says so. -/
structure Calm (first : Bool) (lines : List (List Char)) : Prop where
  /-- Every line is one line. -/
  unbroken : ∀ line ∈ lines, '\n' ∉ line
  /-- The first line opens a block or not. -/
  head : lines.head?.any opens = first
  /-- The others do not. -/
  tail : ∀ line ∈ lines.tail, opens line = false

namespace Calm

variable {first : Bool} {front lines : List (List Char)} {last line : List Char}

/-- A line may be replaced by one that begins alike. -/
theorem replace (h : Calm first (front ++ [last])) (ho : opens line = opens last)
    (hn : '\n' ∉ line) : Calm first (front ++ [line]) := by
  obtain ⟨hu, hh, ht⟩ := h
  refine ⟨?_, ?_, ?_⟩
  · intro other hm
    rcases List.mem_append.mp hm with hm | hm
    · exact hu other (List.mem_append_left _ hm)
    · rw [List.mem_singleton.mp hm]
      exact hn
  · cases front with
    | nil => simpa [ho] using hh
    | cons first front => exact hh
  · cases front with
    | nil => exact fun other hm => absurd hm List.not_mem_nil
    | cons first front =>
      intro other hm
      rcases List.mem_append.mp hm with hm | hm
      · exact ht other (List.mem_append_left _ hm)
      · rw [List.mem_singleton.mp hm, ho]
        exact ht last (List.mem_append_right _ (List.mem_singleton.mpr rfl))

/-- A line that opens no block may follow. -/
theorem concat (h : Calm first lines) (hne : lines ≠ []) (ho : opens line = false)
    (hn : '\n' ∉ line) : Calm first (lines ++ [line]) := by
  obtain ⟨other, rest, rfl⟩ := List.exists_cons_of_ne_nil hne
  refine ⟨?_, h.head, ?_⟩
  · exact List.forall_mem_append.mpr ⟨h.unbroken, List.forall_mem_singleton.mpr hn⟩
  · exact List.forall_mem_append.mpr ⟨h.tail, List.forall_mem_singleton.mpr ho⟩

end Calm

/-- A text behind its mark and within its margin, where `last` is the line being written or the last
one that was. -/
structure Hung (mark margin : List Char) (first : Bool) (front : List (List Char))
    (last : List Char) (d : Draft) : Prop where
  /-- The margin of the lines. -/
  margins : d.margin = margin
  /-- The text is made of the lines. -/
  text : d.text = hang mark margin (front ++ [last]) ++ if d.line = .fresh then ['\n'] else []
  /-- No line opens a block, but possibly the first. -/
  calm : Calm first (front ++ [last])
  /-- Nothing stands on a line that is only opened. -/
  opened : d.line = .opened → last = []
  /-- Something stands on a line that cannot be broken. -/
  solid : d.line = .solid → last ≠ []
  /-- A line that can be broken ends with the blank and the tail, and the tail has its escapes. -/
  loose : ∀ tail escapes, d.line = .loose tail escapes →
    (tail ≠ [] → escapes = true) ∧ ∃ body, last = body ++ ' ' :: tail

/-- What has begun goes on as it began. -/
theorem opens_append {line : List Char} (h : line ≠ []) (cs : List Char) :
    opens (line ++ cs) = opens line := by
  obtain ⟨c, rest, rfl⟩ := List.exists_cons_of_ne_nil h
  rfl

theorem opens_append_blank (line cs : List Char) : opens (line ++ ' ' :: cs) = opens line := by
  cases line with
  | nil => rfl
  | cons c rest => rfl

namespace Draft

/-- At the start of a line nothing is spelled so that it opens a block. -/
theorem opens_spelled {d : Draft} (h : d.atLineStart = true) (c : Char) (next : Option Char) :
    opens (d.spelled true c next) = false := by
  rcases spelled_cases true c next d with ⟨_, _, hs⟩ | ⟨_, _, _, hs⟩ | ⟨hm, hs⟩
  · rw [hs]
    rfl
  · rw [hs]
    rfl
  · by_cases ho : c ∈ Writer.opensBlock
    · simp [spelled, needsEscape_eq, ho, h] at hs
    · rw [hs]
      exact decide_eq_false ho

/-- Nor does a tail with escapes that is moved to a new line. -/
theorem opens_tailGuard {tail : List Char} {escapes : Bool} (h : tail ≠ [] → escapes = true) :
    opens (tailGuard escapes tail ++ tail) = false := by
  cases tail with
  | nil => simp [tailGuard, opens]
  | cons c rest =>
    rw [h (List.cons_ne_nil c rest)]
    by_cases ho : c ∈ Writer.opensBlock
    · simp [tailGuard, ho, opens]
    · have hg : tailGuard true (c :: rest) = [] := by simp [tailGuard, ho]
      rw [hg]
      exact decide_eq_false ho

end Draft

namespace Hung

variable {mark margin : List Char} {first : Bool} {front : List (List Char)} {last : List Char}
  {d : Draft}

/-- A line that is opened is the next one. -/
theorem openLine (h : Hung mark margin first front last d) :
    ∃ front last, Hung mark margin first front last d.openLine ∧ d.openLine.line ≠ .fresh := by
  by_cases hf : d.line = .fresh
  · have hline : d.openLine.line = .opened := by simp [Draft.openLine, hf]
    have hne : front ++ [last] ≠ [] := by simp
    refine ⟨front ++ [last], [], ⟨?_, ?_, ?_, ?_, ?_, ?_⟩, by simp [hline]⟩
    · rw [Draft.margin_of_frame (Draft.frame_openLine d), h.margins]
    · rw [Draft.text_openLine_of_fresh hf, h.text, h.margins, hang_concat hne, if_pos hf,
        if_neg (by simp [hline])]
      simp
    · exact h.calm.concat hne rfl List.not_mem_nil
    · exact fun _ => rfl
    · simp [hline]
    · simp [hline]
  · refine ⟨front, last, ?_, Draft.openLine_line_ne_fresh d⟩
    rw [Draft.openLine_of_ne_fresh hf]
    exact h

/-- More on the line that is being written. -/
theorem extend (h : Hung mark margin first front last d) {d' : Draft} {cs : List Char}
    (hf : d.line ≠ .fresh) (hbegun : d'.atLineStart = false) (hm : d'.margin = d.margin)
    (ht : d'.text = d.text ++ cs) (ho : opens (last ++ cs) = opens last) (hn : '\n' ∉ cs)
    (hne : cs ≠ [])
    (hl : ∀ tail escapes, d'.line = .loose tail escapes →
      (tail ≠ [] → escapes = true) ∧ ∃ body, last ++ cs = body ++ ' ' :: tail) :
    Hung mark margin first front (last ++ cs) d' := by
  have hlast : '\n' ∉ last := h.calm.unbroken last (by simp)
  have hf' := Draft.line_ne_fresh_of_begun hbegun
  refine ⟨hm.trans h.margins, ?_, ?_, ?_, ?_, hl⟩
  · rw [ht, h.text, if_neg hf, if_neg hf', hang_append, List.append_nil, List.append_nil]
  · exact h.calm.replace ho (by simp [hlast, hn])
  · exact fun hn => by simp [Draft.atLineStart, hn] at hbegun
  · exact fun _ => by simp [hne]

/-- A blank goes on the line, unless it comes first there. -/
theorem placeBlank (h : Hung mark margin first front last d) (hf : d.line ≠ .fresh) :
    ∃ last, Hung mark margin first front last d.placeBlank := by
  cases hs : d.atLineStart with
  | true =>
    rw [Draft.placeBlank_of_atLineStart hs]
    exact ⟨last, h⟩
  | false =>
    have hline := Draft.line_placeBlank hs
    refine ⟨last ++ [' '],
      h.extend hf (by simp [Draft.atLineStart, hline]) ?_ (Draft.text_placeBlank hs)
      (opens_append_blank last []) (by decide) (by simp) ?_⟩
    · exact Draft.margin_of_frame (Draft.frame_placeBlank d)
    · intro tail escapes hl
      rw [hline] at hl
      cases hl
      exact ⟨fun hn => absurd rfl hn, last, rfl⟩

/-- A line end ends the line. -/
theorem endLine (h : Hung mark margin first front last d) (hf : d.line ≠ .fresh) :
    Hung mark margin first front last (d.endLine ['\n']) := by
  have hline : (d.endLine ['\n']).line = .fresh := rfl
  refine ⟨h.margins, ?_, h.calm, nofun, nofun, nofun⟩
  rw [Draft.text_endLine, h.text, if_neg hf, if_pos hline, List.append_nil]

/-- A character goes on the line, with a backslash if it comes first there and would open a
block. -/
theorem append (h : Hung mark margin first front last d) (hf : d.line ≠ .fresh) {c : Char}
    (hn : c ≠ '\n') (next : Option Char) :
    ∃ last, Hung mark margin first front last (d.append true (d.spelled true c next)) := by
  have ho : opens (last ++ d.spelled true c next) = opens last := by
    cases hl : d.line with
    | fresh => exact absurd hl hf
    | opened =>
      have hs : d.atLineStart = true := by simp [Draft.atLineStart, hl]
      rw [h.opened hl, List.nil_append, Draft.opens_spelled hs]
      rfl
    | solid => exact opens_append (h.solid hl) _
    | loose tail escapes =>
      obtain ⟨_, body, hb⟩ := h.loose tail escapes hl
      exact opens_append (by simp [hb]) _
  refine ⟨last ++ d.spelled true c next, h.extend hf ?_ ?_ (Draft.text_append _ _ d) ho
    (Draft.newline_notMem_spelled hn _ _ d) (Draft.spelled_ne_nil _ _ _ d) ?_⟩
  · exact Draft.atLineStart_append _ _ d
  · exact Draft.margin_of_frame (Draft.frame_append _ _ d)
  · intro tail' escapes' hl'
    rcases Draft.line_append_cases true (d.spelled true c next) d with hs | ⟨tail, escapes, hl, hs⟩
    · rw [hs] at hl'
      cases hl'
    · rw [hs] at hl'
      cases hl'
      obtain ⟨he, body, hb⟩ := h.loose tail escapes hl
      refine ⟨fun _ => ?_, body, by simp [hb]⟩
      split
      · rfl
      · rename_i ht
        exact he ht

/-- A tail that is moved makes a line of its own. -/
theorem settle (h : Hung mark margin first front last d) :
    ∃ front last, Hung mark margin first front last d.settle := by
  rcases Draft.settle_cases d with ⟨tail, escapes, hl, hs⟩ | ⟨hs, _⟩ <;> rw [hs]
  · obtain ⟨he, body, hb⟩ := h.loose tail escapes hl
    have hlast : '\n' ∉ last := h.calm.unbroken last (by simp)
    have hbody : '\n' ∉ body ∧ '\n' ∉ tail := by simpa [hb] using hlast
    have hne : front ++ [body] ≠ [] := by simp
    have hhead : Glyph.chars d.head = hang mark margin (front ++ [body]) := by
      have ht := h.text
      rw [if_neg (by simp [hl]), List.append_nil, hb, hang_append, Draft.text_of_loose hl] at ht
      exact List.append_cancel_right ht
    refine ⟨front ++ [body], Draft.tailGuard escapes tail ++ tail, ⟨h.margins, ?_, ?_, ?_, ?_, ?_⟩⟩
    · rw [Draft.text_rewind, hhead, h.margins, hang_concat hne,
        if_neg (Draft.line_rewind_ne_fresh tail escapes d)]
      simp
    · refine Calm.concat (h.calm.replace ?_ hbody.1) hne (Draft.opens_tailGuard he) ?_
      · rw [hb, opens_append_blank]
      · simp [Draft.newline_notMem_tailGuard, hbody.2]
    · intro hopened
      rcases Draft.line_rewind_cases tail escapes d with ⟨ht, _⟩ | ⟨_, hline⟩
      · simp [ht, Draft.tailGuard]
      · rw [hline] at hopened
        cases hopened
    · intro hsolid
      rcases Draft.line_rewind_cases tail escapes d with ⟨_, hline⟩ | ⟨ht, _⟩
      · rw [hline] at hsolid
        cases hsolid
      · simp [ht]
    · exact fun tail' escapes' hn =>
        absurd hn (Draft.line_rewind_ne_loose tail escapes d tail' escapes')
  · exact ⟨front, last, h⟩

/-- One more character of running text. -/
theorem put (h : Hung mark margin first front last d) (c : Char) (next : Option Char) :
    ∃ front last, Hung mark margin first front last (d.put .prose c next) := by
  obtain ⟨front, last, ho, hf⟩ := h.openLine
  have hplace : ∃ last, Hung mark margin first front last (d.openLine.place .prose c next) := by
    rcases Draft.place_cases .prose c next d.openLine with ⟨_, hp⟩ | ⟨_, hp⟩ | ⟨hc, hp⟩ <;> rw [hp]
    · exact ho.placeBlank hf
    · exact ⟨last, ho.endLine hf⟩
    · exact ho.append hf hc next
  obtain ⟨last, hp⟩ := hplace
  exact hp.settle

theorem putAll (h : Hung mark margin first front last d) (cs : List Char) :
    ∃ front last, Hung mark margin first front last (d.putAll .prose cs) := by
  induction cs generalizing front last d with
  | nil => exact ⟨front, last, h⟩
  | cons c rest ih =>
    obtain ⟨front, last, hp⟩ := h.put c rest.head?
    exact ih hp

end Hung

/-- The first character behind a mark gets no backslash for its place. -/
theorem Hung.start {d : Draft} {mark : List Char} (hl : d.line = .solid) (ht : d.text = mark)
    (c : Char) (next : Option Char) :
    ∃ front last, Hung mark d.margin (opens [c]) front last (d.put .prose c next) := by
  have hf : d.line ≠ .fresh := by simp [hl]
  have hs : d.atLineStart = false := by simp [Draft.atLineStart, hl]
  have hone : ∀ line : List Char, '\n' ∉ line → Calm (opens line) [line] := fun line hn =>
    ⟨List.forall_mem_singleton.mpr hn, by simp, fun _ hm => absurd hm List.not_mem_nil⟩
  have hplace : ∃ last, Hung mark d.margin (opens [c]) [] last (d.place .prose c next) := by
    rcases Draft.place_cases .prose c next d with ⟨rfl, hp⟩ | ⟨rfl, hp⟩ | ⟨hc, hp⟩ <;> rw [hp]
    · have hline := Draft.line_placeBlank hs
      refine ⟨[' '], Draft.margin_of_frame (Draft.frame_placeBlank d), ?_, ?_, ?_, ?_, ?_⟩
      · rw [Draft.text_placeBlank hs, ht, if_neg (by simp [hline])]
        simp [hang]
      · exact hone [' '] (by decide)
      · simp [hline]
      · simp [hline]
      · intro tail escapes hn
        rw [hline] at hn
        cases hn
        exact ⟨fun hn => absurd rfl hn, [], rfl⟩
    · have hline : (d.endLine ['\n']).line = .fresh := rfl
      refine ⟨[], rfl, ?_, ?_, ?_, ?_, ?_⟩
      · rw [Draft.text_endLine, ht, if_pos hline]
        simp [hang]
      · exact hone [] List.not_mem_nil
      · simp [hline]
      · simp [hline]
      · simp [hline]
    · have hline : (d.append true (d.spelled true c next)).line = .solid :=
        Draft.line_append_of_not_loose (by simp [hl]) _ _
      have ho : opens (d.spelled true c next) = opens [c] := by
        rcases Draft.spelled_cases true c next d with ⟨_, ho, hsp⟩ | ⟨_, _, hstart, _⟩ | ⟨_, hsp⟩
        · rw [hsp]
          exact (decide_eq_false ho).symm
        · rw [hs] at hstart
          cases hstart
        · rw [hsp]
      have hung : Hung mark d.margin (opens [c]) [] (d.spelled true c next)
          (d.append true (d.spelled true c next)) := by
        refine ⟨Draft.margin_of_frame (Draft.frame_append _ _ d), ?_, ?_, ?_,
          fun _ => Draft.spelled_ne_nil _ _ _ d, ?_⟩
        · rw [Draft.text_append, ht, if_neg (by simp [hline])]
          simp [hang]
        · rw [← ho]
          exact hone _ (Draft.newline_notMem_spelled hc _ _ d)
        · simp [hline]
        · simp [hline]
      exact ⟨_, hung⟩
  obtain ⟨last, hp⟩ := hplace
  rw [Draft.put, Draft.openLine_of_ne_fresh hf]
  exact hp.settle

/-- Text behind marks is made of lines that open no block, except the first, which does when the
text does and there is a mark. -/
theorem exists_calm_of_enter (width : Int) {items : List ItemLayout}
    (hitems : ∀ item ∈ items, item.Proper) (content : String) :
    ∃ front last, Calm (decide (items ≠ []) && opens content.toList) (front ++ [last]) ∧
      ∃ ending, (ending = [] ∨ ending = ['\n']) ∧
        ((({ width } : Draft).enter items).emit .prose content).text =
          hang (ItemLayout.marks items) (ItemLayout.margins items) (front ++ [last]) ++ ending := by
  have hung : ∀ {first front last d}, Hung (ItemLayout.marks items)
      (ItemLayout.margins items) first front last d →
      ∃ ending, (ending = [] ∨ ending = ['\n']) ∧ d.text =
        hang (ItemLayout.marks items) (ItemLayout.margins items) (front ++ [last]) ++ ending := by
    intro first front last d h
    refine ⟨_, ?_, h.text⟩
    split
    · exact .inr rfl
    · exact .inl rfl
  have hempty : Calm false [[]] := ⟨by simp, rfl, nofun⟩
  have hhead : opens (Writer.squeeze content.toList) = opens content.toList := by
    rw [opens, Writer.head?_squeeze]
    rfl
  by_cases hs : items = []
  · subst hs
    have hemit : ((({ width } : Draft).enter []).emit .prose content) =
        ({ width } : Draft).putAll .prose (Writer.squeeze content.toList) := rfl
    rw [hemit]
    cases hc : Writer.squeeze content.toList with
    | nil => exact ⟨[], [], hempty, [], .inl rfl, rfl⟩
    | cons c rest =>
      have hopen : Hung [] [] false [] [] ({ width } : Draft).openLine :=
        ⟨rfl, rfl, hempty, fun _ => rfl, nofun, nofun⟩
      obtain ⟨front, last, h⟩ := hopen.putAll (c :: rest)
      rw [Draft.putAll_openLine (List.cons_ne_nil c rest)] at h
      exact ⟨front, last, h.calm, hung h⟩
  · rw [Draft.enter_initial width hitems hs]
    generalize hd : ({ width
                       head := Glyph.plain (ItemLayout.marks items)
                       line := .solid
                       segments := items.map ItemLayout.margin
                       column := (ItemLayout.marks items).length } : Draft) = d
    have hline : d.line = .solid := by rw [← hd]
    have htext : d.text = ItemLayout.marks items := by
      rw [← hd]
      exact Glyph.chars_plain _
    have hmargin : d.margin = ItemLayout.margins items := by
      rw [← hd]
      exact List.flatMap_map ..
    have hemit : d.emit .prose content = d.putAll .prose (Writer.squeeze content.toList) := by
      rw [← hd]
      rfl
    have hfirst : (decide (items ≠ []) && opens content.toList) =
        opens (Writer.squeeze content.toList) := by
      rw [hhead, decide_eq_true hs, Bool.true_and]
    rw [hemit, hfirst]
    cases hc : Writer.squeeze content.toList with
    | nil => exact ⟨[], [], hempty, [], .inl rfl, by rw [Draft.putAll, htext]; simp [hang]⟩
    | cons c rest =>
      obtain ⟨front, last, h⟩ := Hung.start hline htext c rest.head?
      obtain ⟨front, last, h⟩ := h.putAll rest
      rw [hmargin] at h
      exact ⟨front, last, h.calm, hung h⟩

/-- Text in shells of any depth opens no block behind marks and margins, but for one case: there is
a shell, and the text itself begins with a character that opens a block. Then its first line does.
The text has no layout only where the number of a shell has too many digits to be written. -/
theorem render_nest_opens_iff (settings : RenderSettings) (shells : List Shell) (content : String) :
    (∃ items text first rest count,
      Shell.layouts settings.markers shells = .ok items ∧
      (Node.branch .document
        (Shell.nest [.branch .paragraph [.leaf (.text content)]] shells)).render
        settings = .ok text ∧
      text.toList = hang (ItemLayout.marks items) (ItemLayout.margins items) (first :: rest) ++
        List.replicate count '\n' ∧ count ≤ 2 ∧
      (∀ line ∈ first :: rest, '\n' ∉ line) ∧ (∀ line ∈ rest, opens line = false) ∧
      (opens first ↔ shells ≠ [] ∧ opens content.toList)) ∨
    ((Node.branch .document (Shell.nest [.branch .paragraph [.leaf (.text content)]] shells)).render
        settings = .error .longNumeral ∧
      settings.markers = .sequential ∧
      ∃ start, Shell.item true start ∈ shells ∧ Text.numeral? start = none) := by
  cases hlayouts : Shell.layouts settings.markers shells with
  | error e =>
    obtain ⟨rfl, hlong⟩ := Shell.layouts_eq_error_iff.mp hlayouts
    refine .inr ⟨?_, hlong⟩
    rw [Node.render_eq, Node.draft_document, draftOfVisits_nest_error hlayouts]
    rfl
  | ok items =>
    have hparagraph : ∀ container position (d : Draft),
        draftOfVisits settings (Node.visitsUnder container position
          [.branch .paragraph [.leaf (.text content)]]) d =
            .ok ((d.emit .prose content).owe .blankLine) := fun container position d => by
      rw [draftOfVisits_paragraph]
      rfl
    obtain ⟨front, last, hcalm, ending, hending, htext⟩ :=
      exists_calm_of_enter settings.width (Shell.proper_of_mem_layouts hlayouts) content
    generalize hd : (({ width := settings.width } : Draft).enter items).emit .prose
      content = d at htext
    have hnest := draftOfVisits_nest hparagraph (by simp [Draft.owe_blankLine])
      (by simp [Draft.owe_blankLine]) hlayouts .document 0 { width := settings.width }
    obtain ⟨hclosed, count, hcount, hend, hone, _⟩ :=
      Draft.text_conclude (d := { d with segments := [] }) rfl
    have hrender : (Node.branch .document
        (Shell.nest [.branch .paragraph [.leaf (.text content)]] shells)).draft settings =
          .ok ({ d with segments := [] } : Draft).conclude := by
      rw [Node.draft_document, hnest, hd, Draft.conclude, Draft.owe_blankLine, Draft.owe_blankLine]
      rfl
    obtain ⟨first, rest, hlines⟩ := List.exists_cons_of_ne_nil (l := front ++ [last]) (by simp)
    rw [hlines] at hcalm htext
    have hbody : ({ d with segments := [] } : Draft).text = _ := htext
    refine .inl ⟨items, String.ofList ({ d with segments := [] } : Draft).conclude.text, first,
      rest, count + ending.length, rfl,
      Node.render_eq_ok_iff.mpr ⟨_, hrender, hclosed, String.toList_ofList.symm⟩,
      ?_, ?_, hcalm.unbroken, hcalm.tail, ?_⟩
    · rw [String.toList_ofList, hend, hbody]
      rcases hending with rfl | rfl <;> simp [List.replicate_succ]
    · rcases hending with rfl | rfl
      · simpa using hcount
      · have hl := hone (by rw [hbody, List.getLast?_concat])
        simp only [List.length_singleton]
        omega
    · have hhead : opens first = (decide (items ≠ []) && opens content.toList) := by
        simpa using hcalm.head
      rw [hhead, Bool.and_eq_true_iff, decide_eq_true_iff, Ne, Ne,
        Shell.layouts_eq_nil_iff hlayouts]

example : (Node.branch .document (Shell.nest [.branch .paragraph [.leaf (.text "-a -b")]]
    [.quote])).render { width := 4 } = .ok "> -a\n> \\-b\n\n" := by decide +kernel

end MarkdownLayout
