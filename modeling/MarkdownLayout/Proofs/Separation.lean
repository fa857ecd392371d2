import Mathlib.Data.List.Infix
import MarkdownLayout.Proofs.Draft.Shell
import MarkdownLayout.Proofs.Reflow
import MarkdownLayout.Proofs.Runs
import MarkdownLayout.Proofs.Sequence

/-!
# Blank lines between blocks

Line ends come from breaks owed, from lines that are broken, from the lines of code and markup, and
from the end of a document. No three of them follow each other: a break is paid only as far as line
ends are missing, and all other line ends end a line on which something stands. The main statement
is `render_sparse`. It asks for nodes whose texts are on one line, except that the line of a block
of code or markup may be ended.
-/

namespace MarkdownLayout

/-- A text has no three line ends in a row. -/
def Sparse (text : List Char) : Prop :=
  ¬ ['\n', '\n', '\n'] <:+: text

namespace Sparse

variable {text : List Char}

/-- Any character may be written but the third of three line ends. -/
theorem concat (h : Sparse text) {c : Char} (hc : c = '\n' → ¬ ['\n', '\n'] <:+ text) :
    Sparse (text ++ [c]) := by
  intro hn
  rcases List.infix_concat_iff.mp hn with hs | hi
  · obtain hnil | ⟨front, hfront, hs⟩ := List.suffix_concat_iff.mp hs
    · cases hnil
    · have hsplit : ['\n', '\n'] ++ ['\n'] = front ++ [c] := hfront
      obtain ⟨rfl, hlast⟩ := List.append_inj' hsplit rfl
      exact hc (List.singleton_inj.mp hlast).symm hs
  · exact h hi

/-- Text on one line may be written behind any sparse text. -/
theorem append (h : Sparse text) {more : List Char} (hm : '\n' ∉ more) : Sparse (text ++ more) := by
  induction more generalizing text with
  | nil => rwa [List.append_nil]
  | cons c more ih =>
    obtain ⟨hc, hrest⟩ := not_or.mp (mt List.mem_cons.mpr hm)
    rw [List.append_cons]
    exact ih (h.concat fun he => absurd he.symm hc) hrest

/-- A text is sparse from its start on, so every part of it that was written first is. -/
theorem of_prefix {front : List Char} (h : Sparse text) (hf : front <+: text) : Sparse front :=
  fun hn => h (hn.trans hf.isInfix)

end Sparse

/-- A text that does not end with a line end does not end with a blank line. -/
theorem not_blank_suffix {text : List Char} (h : text.getLast? ≠ some '\n') :
    ¬ ['\n', '\n'] <:+ text :=
  mt getLast?_of_pair_suffix h

/-- Nor does text on one line make a blank line at the end. -/
theorem not_blank_suffix_append {text more : List Char} (h : ¬ ['\n', '\n'] <:+ text)
    (hm : '\n' ∉ more) : ¬ ['\n', '\n'] <:+ text ++ more := by
  by_cases hne : more = []
  · rwa [hne, List.append_nil]
  · refine not_blank_suffix ?_
    rw [List.getLast?_append_of_ne_nil text hne]
    exact fun hl => hm (List.mem_of_getLast? hl)

/-- A text is on one line. If that line is ended, something stands on it. -/
def IsLine (text : String) : Prop :=
  '\n' ∉ text.toList ∨ ∃ line, line ≠ [] ∧ '\n' ∉ line ∧ text.toList = line ++ ['\n']

/-- The span or the margin of a step is on one line, which a span ends only where no line is
broken. -/
def Step.OnLines : Step → Prop
  | .emit policy span => '\n' ∉ span.toList ∨ policy.wraps = false ∧ IsLine span
  | .push segment => '\n' ∉ segment.toList
  | _ => True

namespace Draft

/-- Where no line is broken at it, a character begins the line that it is written on. -/
theorem atLineStart_put {policy : Policy} (hw : policy.wraps = false) {c : Char} (hc : c ≠ '\n')
    (next : Option Char) (d : Draft) : (d.put policy c next).atLineStart = false := by
  have hplace : d.openLine.place policy c next =
      d.openLine.append policy.escapes (d.openLine.spelled policy.escapes c next) := by
    rw [place, if_neg (by simp [hw]), if_neg hc]
  have hne := spelled_ne_nil policy.escapes c next d.openLine
  rw [put, hplace]
  generalize d.openLine.spelled policy.escapes c next = cs at hne
  rcases line_append_cases policy.escapes cs d.openLine with hs | ⟨tail, first, _, hs⟩
  · rw [settle_of_solid hs]
    exact atLineStart_append policy.escapes cs d.openLine
  · rcases settle_cases (d.openLine.append policy.escapes cs) with
      ⟨tail', escapes', hl, hr⟩ | ⟨hr, _⟩
    · have ht : tail' ≠ [] := by
        rw [hs] at hl
        cases hl
        simp [hne]
      obtain ⟨hnil, _⟩ | ⟨_, hsolid⟩ :=
        line_rewind_cases tail' escapes' (d.openLine.append policy.escapes cs)
      · exact absurd hnil ht
      · simp [hr, atLineStart, hsolid]
    · rw [hr]
      exact atLineStart_append policy.escapes cs d.openLine

/-- The text of a draft has no three line ends in a row, and gets none when its line is broken or
ended. -/
structure Separated (d : Draft) : Prop where
  /-- The margins are on one line. -/
  margin : ∀ segment ∈ d.segments, '\n' ∉ segment.toList
  /-- There are no three line ends in a row. -/
  sparse : Sparse d.text
  /-- A line that has begun ends with something else. -/
  begun : d.atLineStart = false → d.text.getLast? ≠ some '\n'
  /-- The line may be broken, and what is moved is on one line. -/
  loose : ∀ tail escapes, d.line = .loose tail escapes →
    '\n' ∉ tail ∧ (Glyph.chars d.head).getLast? ≠ some '\n'

namespace Separated

variable {d : Draft}

/-- The margins are on one line each, so what opens a line is on one line. -/
theorem newline_notMem_margin (h : d.Separated) : '\n' ∉ d.margin := by
  intro hn
  obtain ⟨segment, hs, hm⟩ := List.mem_flatMap.mp hn
  exact h.margin segment hs hm

/-- On a line on which there is nothing but a margin only the text counts. -/
theorem of_atLineStart {d' : Draft} (h : d.Separated) (hs : d'.segments = d.segments)
    (ht : Sparse d'.text) (hl : d'.atLineStart = true) : d'.Separated := by
  refine ⟨by rw [hs]; exact h.margin, ht, fun hn => ?_, fun tail escapes hn => ?_⟩
  · rw [hl] at hn
    cases hn
  · simp [atLineStart, hn] at hl

/-- A margin is text on one line, and may be written anywhere. -/
theorem openLine (h : d.Separated) : d.openLine.Separated := by
  by_cases hf : d.line = .fresh
  · refine h.of_atLineStart (segments_of_frame (frame_openLine d)) ?_ ?_
    · rw [text_openLine_of_fresh hf]
      exact h.sparse.append h.newline_notMem_margin
    · simp [Draft.openLine, atLineStart, hf]
  · rw [openLine_of_ne_fresh hf]
    exact h

/-- A blank that is written ends no line, and one that is dropped changes nothing. -/
theorem placeBlank (h : d.Separated) : d.placeBlank.Separated := by
  cases hs : d.atLineStart with
  | true =>
    rw [placeBlank_of_atLineStart hs]
    exact h
  | false =>
    refine ⟨?_, ?_, ?_, ?_⟩
    · rw [segments_of_frame (frame_placeBlank d)]
      exact h.margin
    · rw [text_placeBlank hs]
      exact h.sparse.append (by simp)
    · rw [text_placeBlank hs, List.getLast?_concat]
      simp
    · rw [placeBlank_of_begun hs]
      intro tail escapes hl
      cases hl
      exact ⟨List.not_mem_nil, h.begun hs⟩

/-- Characters on one line go behind the break point, wherever that is. -/
theorem append (h : d.Separated) {cs : List Char} (hcs : '\n' ∉ cs) (hne : cs ≠ [])
    (escapes : Bool) : (d.append escapes cs).Separated := by
  refine ⟨?_, ?_, fun _ => ?_, fun tail' escapes' hl' => ?_⟩
  · rw [segments_of_frame (frame_append escapes cs d)]
    exact h.margin
  · rw [text_append]
    exact h.sparse.append hcs
  · rw [text_append, List.getLast?_append_of_ne_nil d.text hne]
    exact fun hl => hcs (List.mem_of_getLast? hl)
  · rcases line_append_cases escapes cs d with hs | ⟨tail, first, hl, hs⟩
    · rw [hs] at hl'
      cases hl'
    · rw [hs] at hl'
      cases hl'
      obtain ⟨htail, hhead⟩ := h.loose tail first hl
      have hsame : (d.append escapes cs).head = d.head := by
        cases tail <;> simp [Draft.append, hl]
      rw [hsame]
      exact ⟨by simp [htail, hcs], hhead⟩

/-- The line end in place of a blank ends a line on which something stands. -/
theorem rewind (h : d.Separated) {tail : List Char} {escapes : Bool}
    (hl : d.line = .loose tail escapes) : (d.rewind tail escapes).Separated := by
  obtain ⟨htail, hhead⟩ := h.loose tail escapes hl
  have hmoved : '\n' ∉ d.margin ++ (tailGuard escapes tail ++ tail) := by
    simp [h.newline_notMem_margin, newline_notMem_tailGuard escapes tail, htail]
  refine ⟨h.margin, ?_, fun hs => ?_, fun tail' escapes' hl' => ?_⟩
  · have hfront : Sparse (Glyph.chars d.head) := by
      refine h.sparse.of_prefix ?_
      rw [text_of_loose hl]
      exact List.prefix_append _ _
    rw [text_rewind, List.append_cons]
    exact (hfront.concat fun _ => not_blank_suffix hhead).append hmoved
  · have hne : tail ≠ [] := by
      rintro rfl
      simp [Draft.rewind, atLineStart] at hs
    rw [text_rewind, ← List.append_assoc d.margin, List.append_cons, ← List.append_assoc,
      List.getLast?_append_of_ne_nil _ hne]
    exact fun hn => htail (List.mem_of_getLast? hn)
  · exact absurd hl' (line_rewind_ne_loose tail escapes d tail' escapes')

/-- A break puts its line end behind text on the line, so no blank line comes of it. -/
theorem settle (h : d.Separated) : d.settle.Separated := by
  rcases settle_cases d with ⟨tail, escapes, hl, hs⟩ | ⟨hs, _⟩ <;> rw [hs]
  · exact h.rewind hl
  · exact h

/-- Line ends may be written if the text stays sparse. -/
theorem endLine (h : d.Separated) {cs : List Char} (hcs : Sparse (d.text ++ cs)) :
    (d.endLine cs).Separated := by
  refine h.of_atLineStart rfl ?_ rfl
  rwa [text_endLine]

/-- A character that ends no line. -/
theorem put (h : d.Separated) (policy : Policy) {c : Char} (hc : c ≠ '\n') (next : Option Char) :
    (d.put policy c next).Separated := by
  refine settle ?_
  rcases place_cases policy c next d.openLine with ⟨_, hp⟩ | ⟨hn, _⟩ | ⟨_, hp⟩
  · rw [hp]
    exact h.openLine.placeBlank
  · exact absurd hn hc
  · rw [hp]
    exact h.openLine.append (newline_notMem_spelled hc _ _ _) (spelled_ne_nil _ _ _ _) _

/-- Text on one line may be written, wherever its lines are broken. -/
theorem putAll (h : d.Separated) (policy : Policy) {cs : List Char} (hcs : '\n' ∉ cs) :
    (d.putAll policy cs).Separated := by
  induction cs generalizing d with
  | nil => exact h
  | cons c rest ih =>
    obtain ⟨hc, hrest⟩ := not_or.mp (mt List.mem_cons.mpr hcs)
    exact ih (h.put policy (Ne.symm hc) rest.head?) hrest

/-- A line that is ended has begun. -/
theorem putAll_line (h : d.Separated) {policy : Policy} (hw : policy.wraps = false) {cs : List Char}
    (hcs : '\n' ∉ cs) (hb : cs = [] → d.atLineStart = false) :
    (d.putAll policy (cs ++ ['\n'])).Separated := by
  induction cs generalizing d with
  | nil =>
    have hbegun := hb rfl
    have hput : d.putAll policy ([] ++ ['\n']) = d.openLine.endLine ['\n'] := rfl
    rw [hput, openLine_of_ne_fresh (line_ne_fresh_of_begun hbegun)]
    exact h.endLine (h.sparse.concat fun _ => not_blank_suffix (h.begun hbegun))
  | cons c rest ih =>
    obtain ⟨hc, hrest⟩ := not_or.mp (mt List.mem_cons.mpr hcs)
    have hc' : c ≠ '\n' := Ne.symm hc
    exact ih (h.put policy hc' _) hrest fun _ => atLineStart_put hw hc' _ d

/-- The breaks owed add at most as many line ends as are missing for a blank line. -/
theorem sparse_breaksOwed (h : d.Separated) : Sparse (d.text ++ d.breaksOwed) := by
  have hblank : ∀ {text : List Char}, Sparse text → ¬ ['\n', '\n'] <:+ text →
      Sparse (text ++ (d.margin ++ ['\n'])) := by
    intro text ht hn
    rw [← List.append_assoc]
    refine (ht.append h.newline_notMem_margin).concat fun _ => ?_
    exact not_blank_suffix_append hn h.newline_notMem_margin
  have hend : d.text.getLast? ≠ some '\n' → Sparse (d.text ++ ['\n']) := fun hl =>
    h.sparse.concat fun _ => not_blank_suffix hl
  unfold breaksOwed
  cases d.owed with
  | nothing =>
    rw [List.append_nil]
    exact h.sparse
  | lineEnd =>
    dsimp only
    split
    · rw [List.append_nil]
      exact h.sparse
    · rename_i hl
      exact hend fun hn => hl (.inr hn)
  | blankLine =>
    dsimp only
    split
    · rw [List.append_nil]
      exact h.sparse
    · rename_i hspaced
      split
      · exact hblank h.sparse fun hn => hspaced (.inr (.inr hn))
      · rename_i hl
        rw [List.append_cons]
        exact hblank (hend hl) (mt getLast?_of_pair_suffix_concat hl)

/-- Breaks are paid up to one blank line and not beyond. -/
theorem flush (h : d.Separated) : d.flush.Separated := by
  unfold Draft.flush
  split
  · exact h
  · refine h.of_atLineStart rfl ?_ rfl
    show Sparse (d.endLine d.breaksOwed).text
    rw [text_endLine]
    exact h.sparse_breaksOwed

/-- A span on one line, with or without the end of the line, keeps the text sparse. -/
theorem emit (h : d.Separated) {policy : Policy} {span : String}
    (hs : (Step.emit policy span).OnLines) : (d.emit policy span).Separated := by
  have hline : '\n' ∉ span.toList → (d.emit policy span).Separated := by
    intro hn
    refine h.flush.putAll _ fun hm => hn ?_
    unfold charsOf at hm
    split at hm
    · exact Writer.mem_of_mem_squeezeAfter hm
    · exact hm
  rcases hs with hn | ⟨hw, hn | ⟨line, hne, hn, hspan⟩⟩
  · exact hline hn
  · exact hline hn
  · have hwraps : (d.effective policy).wraps = false := by simp [effective, hw]
    have hchars : charsOf (d.effective policy) span = line ++ ['\n'] := by
      rw [charsOf, if_neg (by simp [hwraps]), hspan]
    rw [Draft.emit, hchars]
    exact h.flush.putAll_line hwraps hn fun hnil => absurd hnil hne

/-- What writes nothing keeps the text. -/
theorem of_same_text {d' : Draft} (h : d.Separated)
    (hm : ∀ segment ∈ d'.segments, '\n' ∉ segment.toList) (hh : d'.head = d.head)
    (hl : d'.line = d.line) : d'.Separated := by
  have ht : d'.text = d.text := by rw [text, text, glyphs, glyphs, hh, hl]
  have hs : d'.atLineStart = d.atLineStart := by rw [atLineStart, atLineStart, hl]
  refine ⟨hm, ?_, ?_, ?_⟩
  · rw [ht]
    exact h.sparse
  · rw [ht, hs]
    exact h.begun
  · rw [hh, hl]
    exact h.loose

/-- What a step keeps. -/
theorem apply (h : d.Separated) {s : Step} (hs : s.OnLines) : (d.apply s).Separated := by
  cases s with
  | emit policy span => exact h.emit hs
  | flush => exact h.flush
  | owe owed =>
    rcases apply_owe_cases d owed with ho | ho <;> rw [ho]
    · exact h.of_same_text h.margin rfl rfl
    · exact h
  | push segment =>
    refine h.of_same_text (fun other ho => ?_) rfl rfl
    rcases List.mem_append.mp ho with hm | hm
    · exact h.margin other hm
    · rw [List.mem_singleton.mp hm]
      exact hs
  | pop expected =>
    rcases apply_pop_cases d expected with hp | hp <;> rw [hp]
    · exact h.of_same_text (fun other ho => h.margin other (List.mem_of_mem_dropLast ho)) rfl rfl
    · exact h
  | startLine => exact h.endLine (by rw [List.append_nil]; exact h.sparse)
  | keepLines on | setWidth width => exact h.of_same_text h.margin rfl rfl

/-- What a run keeps. -/
theorem run (h : d.Separated) {steps : List Step} (hs : ∀ s ∈ steps, s.OnLines) :
    (d.run steps).Separated := by
  induction steps generalizing d with
  | nil => exact h
  | cons s steps ih =>
    obtain ⟨hfirst, hrest⟩ := List.forall_mem_cons.mp hs
    exact ih (h.apply hfirst) hrest

/-- A document without any text is a line end. -/
theorem emit_newline (h : d.Separated) (ht : d.text = []) : (d.emit .verbatim "\n").Separated := by
  have hemit : d.emit .verbatim "\n" = d.flush.openLine.endLine ['\n'] := rfl
  have htext : '\n' ∉ d.flush.openLine.text := by
    by_cases hf : d.flush.line = .fresh
    · rw [text_openLine_of_fresh hf, text_flush_of_text_nil ht, List.nil_append]
      exact h.flush.newline_notMem_margin
    · rw [openLine_of_ne_fresh hf, text_flush_of_text_nil ht]
      exact List.not_mem_nil
  have hsparse := h.flush.openLine.sparse
  rw [hemit]
  refine h.flush.openLine.endLine (hsparse.concat fun _ => not_blank_suffix fun hl => ?_)
  exact htext (List.mem_of_getLast? hl)

/-- The end of a document adds a line end where one is missing, and one to an empty text. -/
theorem finish (h : d.Separated) : d.finish.Separated := by
  have hfinish : ∀ {e : Draft}, e.Separated → (e.owe .lineEnd).flush.Separated := fun he =>
    (he.apply (s := .owe .lineEnd) trivial).flush
  unfold Draft.finish
  split
  · rename_i ht
    exact hfinish (h.emit_newline (List.isEmpty_iff.mp ht))
  · exact hfinish h

end Separated

/-- Where anything is owed, a text that is not empty ends with a line end once that has been
paid. -/
theorem getLast?_text_flush {d : Draft} (ht : d.text ≠ []) (ho : d.owed ≠ .nothing) :
    d.flush.text.getLast? = some '\n' := by
  have hflush : d.flush.text = d.text ++ d.breaksOwed := by
    rw [flush, if_neg ho]
    exact text_endLine d.breaksOwed d
  rw [hflush]
  rcases breaksOwed_cases ho with ⟨hended, hb | hb⟩ | ⟨_, hb | hb⟩ <;> rw [hb]
  · rw [List.append_nil]
    exact hended.resolve_left ht
  · rw [← List.append_assoc, List.getLast?_concat]
  · rw [List.getLast?_concat]
  · rw [List.append_cons, ← List.append_assoc, List.getLast?_concat]

/-- A document ends with a line end. -/
theorem getLast?_text_finish {d : Draft} (hs : d.segments = []) :
    d.finish.text.getLast? = some '\n' := by
  by_cases ht : d.text = []
  · rw [text_finish_of_text_nil ht hs]
    rfl
  · rw [finish_of_text_ne_nil ht]
    refine getLast?_text_flush ?_ ?_
    · unfold owe
      split <;> exact ht
    · cases ho : d.owed <;> simp [owe, ho, Owed.level]

end Draft

/-- The texts of a leaf are on one line, and the line of a block may be ended. -/
def Leaf.OnLines : Leaf → Prop
  | .codeBlock content info => IsLine content ∧ ∀ text ∈ info, '\n' ∉ text.toList
  | .htmlBlock content => IsLine content
  | .text content | .code content | .htmlInline content => '\n' ∉ content.toList
  | _ => True

/-- The destination and the title of a container are on one line. -/
def Container.OnLines : Container → Prop
  | .link url title | .image url title =>
    '\n' ∉ url.toList ∧ ∀ text ∈ title, '\n' ∉ text.toList
  | _ => True

/-- The texts of an element are on one line, and the line of a block may be ended. -/
def Element.OnLines : Element → Prop
  | .leaf l => l.OnLines
  | .container c => c.OnLines

/-- The parts of a text have its characters. -/
theorem Text.mem_of_mem_cutAt {mark c : Char} {cs part : List Char} (hp : part ∈ cutAt mark cs)
    (hc : c ∈ part) : c ∈ cs := by
  induction cs generalizing part with
  | nil =>
    rw [List.mem_singleton.mp hp] at hc
    cases hc
  | cons e rest ih =>
    rw [cutAt] at hp
    split at hp
    · rcases List.mem_cons.mp hp with rfl | hp
      · cases hc
      · exact List.mem_cons_of_mem e (ih hp hc)
    · obtain ⟨first, parts, hcut⟩ := List.exists_cons_of_ne_nil (cutAt_ne_nil mark rest)
      rw [hcut] at hp ih
      rcases List.mem_cons.mp hp with rfl | hp
      · rcases List.mem_cons.mp hc with rfl | hc
        · exact List.mem_cons_self
        · exact List.mem_cons_of_mem e (ih List.mem_cons_self hc)
      · exact List.mem_cons_of_mem e (ih (List.mem_cons_of_mem first hp) hc)

/-- The marks around code are on one line. -/
theorem newline_notMem_paddedCode {content : String} (h : '\n' ∉ content.toList) :
    '\n' ∉ (paddedCode content).toList := by
  unfold paddedCode
  split <;> simp [h]

/-- The marks of a heading are on one line, however many there are. -/
theorem newline_notMem_headingMark (level : Int) : '\n' ∉ (headingMark level).toList := by
  simp [headingMark]

/-- The parts of a title are on one line, and so are the marks between them. -/
theorem onLines_titlePartSteps {parts : List (List Char)} (h : ∀ part ∈ parts, '\n' ∉ part) :
    ∀ s ∈ titlePartSteps parts, s.OnLines := by
  have hpart : ∀ part ∈ parts, (Step.emit .guarded (String.ofList part)).OnLines := fun part hp =>
    .inl (by rw [String.toList_ofList]; exact h part hp)
  fun_induction titlePartSteps parts with
  | case1 => exact List.forall_mem_nil _
  | case2 part => exact List.forall_mem_singleton.mpr (hpart part List.mem_cons_self)
  | case3 part rest _ ih =>
    obtain ⟨_, hrest⟩ := List.forall_mem_cons.mp h
    obtain ⟨hfirst, hparts⟩ := List.forall_mem_cons.mp hpart
    exact List.forall_mem_cons.mpr
      ⟨hfirst, List.forall_mem_cons.mpr ⟨.inl (by decide), ih hrest hparts⟩⟩

/-- A title on one line is written on one line, in the quotes that it needs. -/
theorem onLines_titleSteps {title : Option String} (h : ∀ text ∈ title, '\n' ∉ text.toList) :
    ∀ s ∈ titleSteps title, s.OnLines := by
  cases title with
  | none => exact List.forall_mem_nil _
  | some text =>
    rw [titleSteps]
    split
    · exact List.forall_mem_nil _
    · have hparts : ∀ part ∈ Text.cutAt '"' text.toList, '\n' ∉ part := fun part hp hn =>
        h text rfl (Text.mem_of_mem_cutAt hp hn)
      refine List.forall_mem_cons.mpr ⟨.inl (by decide), List.forall_mem_append.mpr ⟨?_, ?_⟩⟩
      · exact onLines_titlePartSteps hparts
      · exact List.forall_mem_singleton.mpr (.inl (by decide))

/-- So is a destination with its title. -/
theorem onLines_destinationSteps {url : String} {title : Option String} (hu : '\n' ∉ url.toList)
    (ht : ∀ text ∈ title, '\n' ∉ text.toList) : ∀ s ∈ destinationSteps url title, s.OnLines := by
  refine List.forall_mem_cons.mpr ⟨.inl (by decide), List.forall_mem_cons.mpr ⟨.inl hu, ?_⟩⟩
  refine List.forall_mem_append.mpr ⟨onLines_titleSteps ht, ?_⟩
  exact List.forall_mem_singleton.mpr (.inl (by decide))

/-- A fenced block whose code is a line ends each of its lines with something on it. -/
theorem onLines_fencedSteps (settings : RenderSettings) {content info : String}
    (hc : IsLine content) (hi : '\n' ∉ info.toList) :
    ∀ s ∈ fencedSteps settings content info, s.OnLines := by
  have hfence : '\n' ∉ (fenceFor content).toList := newline_notMem_ticks _
  simp [fencedSteps, Step.OnLines, hc, hi, hfence]

/-- So does an indented one. -/
theorem onLines_indentedSteps {content : String} (hc : IsLine content) :
    ∀ s ∈ indentedSteps content, s.OnLines := by
  have hmargin : '\n' ∉ codeMargin.toList := by decide
  simp [indentedSteps, Step.OnLines, Policy.verbatim, hc, hmargin]

/-- The script of a leaf writes what the leaf holds and marks on one line each. -/
theorem onLines_leafScript {settings : RenderSettings} {leaf : Leaf} (hl : leaf.OnLines)
    {steps : List Step} (h : leaf.script settings = .ok steps) : ∀ s ∈ steps, s.OnLines := by
  cases leaf with
  | foreign kind => cases h
  | codeBlock content info =>
    cases h
    obtain ⟨hcontent, hinfo⟩ := hl
    have hbody : ∀ s ∈ (if isWritten info then fencedSteps settings content (info.getD "")
        else indentedSteps content), s.OnLines := by
      split
      · refine onLines_fencedSteps settings hcontent ?_
        cases info with
        | none => exact List.not_mem_nil
        | some text => exact hinfo text rfl
      · exact onLines_indentedSteps hcontent
    simpa [Step.OnLines, or_imp, forall_and] using hbody
  | htmlBlock content =>
    cases h
    have hemit : (Step.emit .verbatim content).OnLines := .inr ⟨rfl, hl⟩
    simpa [Step.OnLines] using hemit
  | code content =>
    cases h
    have hdelimiter : '\n' ∉ (codeDelimiter content).toList := newline_notMem_ticks _
    simp [Step.OnLines, hdelimiter, newline_notMem_paddedCode hl]
  | text content | htmlInline content =>
    cases h
    exact List.forall_mem_singleton.mpr (.inl hl)
  | thematicBreak | lineBreak | softBreak =>
    cases h
    simp [Step.OnLines]

/-- The script of a visit writes on lines. Only a document without any text begins with a line
end. -/
theorem Visit.onLines_script {settings : RenderSettings} {unwritten : Bool} {v : Visit}
    (hv : v.element.OnLines) {steps : List Step} (h : v.script settings unwritten = .ok steps) :
    (∀ s ∈ steps, s.OnLines) ∨
      (unwritten = true ∧ steps = [.emit .verbatim "\n", .owe .lineEnd, .flush]) := by
  obtain ⟨event, element, slot⟩ := v
  cases element with
  | leaf leaf => exact .inl (onLines_leafScript hv h)
  | container container =>
    cases container with
    | foreign kind => cases event <;> cases h
    | document =>
      cases event with
      | enter =>
        cases h
        exact .inl (List.forall_mem_nil _)
      | exit | done =>
        cases unwritten <;> cases h
        · simp [Step.OnLines]
        · exact .inr ⟨rfl, rfl⟩
    | listItem =>
      obtain ⟨item, hi, rfl | rfl⟩ := Visit.script_listItem h
      · have hmargin : '\n' ∉ item.margin.toList := fun hn => by
          have hblank := List.all_eq_true.mp (Slot.margin_blank hi) '\n' hn
          simp at hblank
        simp [Step.OnLines, (Slot.proper_layout hi).unbroken, hmargin]
      · simp [Step.OnLines]
    | link url title | image url title =>
      left
      cases event <;> cases h
      · simp [Step.OnLines]
      · exact onLines_destinationSteps hv.1 hv.2
      · exact onLines_destinationSteps hv.1 hv.2
    | heading level =>
      left
      cases event <;> cases h <;> simp [Step.OnLines, newline_notMem_headingMark]
    | blockQuote | list | paragraph | strong | emphasis =>
      left
      cases event <;> cases h <;> simp [Step.OnLines, quoteMargin]

namespace Draft.Separated

/-- What a visit keeps. -/
theorem visit {settings : RenderSettings} {d d' : Draft} {v : Visit} (h : d.Separated)
    (hv : v.element.OnLines) (hd : d.visit settings v = .ok d') : d'.Separated := by
  obtain ⟨steps, hscript, hperform⟩ := exists_of_bind_eq_ok hd
  rw [← run_of_perform hperform]
  rcases Visit.onLines_script hv hscript with hs | ⟨hempty, rfl⟩
  · exact h.run hs
  · have hnewline := h.emit_newline (List.isEmpty_iff.mp hempty)
    have hrest : ∀ s ∈ [Step.owe .lineEnd, .flush], s.OnLines := by simp [Step.OnLines]
    exact hnewline.run hrest

/-- What a list of visits keeps. -/
theorem draftOfVisits {settings : RenderSettings} {visits : List Visit} {d d' : Draft}
    (h : d.Separated) (hv : ∀ v ∈ visits, v.element.OnLines)
    (hd : draftOfVisits settings visits d = .ok d') : d'.Separated := by
  induction visits generalizing d with
  | nil =>
    cases hd
    exact h
  | cons v visits ih =>
    obtain ⟨hfirst, hrest⟩ := List.forall_mem_cons.mp hv
    obtain ⟨mid, hmid, hd⟩ := exists_of_bind_eq_ok hd
    exact ih (h.visit hfirst hmid) hrest hd

/-- A new draft has no line ends at all. -/
theorem initial (width : Int) : ({ width } : Draft).Separated where
  margin := List.forall_mem_nil _
  sparse := fun hn => by cases List.infix_nil.mp hn
  begun := fun hs => by cases hs
  loose := fun _ _ hl => by cases hl

end Draft.Separated

/-- A document whose texts are on one line each, but for the line ends of blocks, has a text unless
something is wrong with a node. The text is not empty and ends with a line end, and no three line
ends follow each other in it. -/
theorem render_sparse (settings : RenderSettings) {children : List Node}
    (h : ∀ node ∈ Node.preorderOf children, node.element.OnLines) :
    ((Node.branch .document children).defect? settings.markers = none →
      ∃ text, (Node.branch .document children).render settings = .ok text) ∧
    ∀ text, (Node.branch .document children).render settings = .ok text →
      text ≠ "" ∧ text.toList.getLast? = some '\n' ∧
        ¬ ['\n', '\n', '\n'] <:+: text.toList := by
  have hsettles := Node.settles_draft settings (.branch .document children)
  refine ⟨fun hdefect => ?_, fun text hrender => ?_⟩
  · rw [hdefect] at hsettles
    obtain ⟨d, hd, hs⟩ := hsettles
    exact ⟨_, Node.render_eq_ok_iff.mpr ⟨d, hd, hs, String.toList_ofList.symm⟩⟩
  · obtain ⟨d, hd, hs, htext⟩ := Node.render_eq_ok_iff.mp hrender
    rw [Node.draft_document] at hd
    cases hmid : draftOfVisits settings (Node.visitsUnder .document 0 children)
        { width := settings.width } with
    | error error =>
      rw [hmid] at hd
      cases hd
    | ok mid =>
      rw [hmid] at hd
      cases hd
      have hvisits : ∀ v ∈ Node.visitsUnder .document 0 children, v.element.OnLines := by
        intro v hv
        obtain ⟨node, hnode, he⟩ := Node.mem_visitsUnder hv
        rw [he]
        exact h node hnode
      have hseparated :=
        ((Draft.Separated.initial settings.width).draftOfVisits hvisits hmid).finish
      rw [Draft.segments_finish] at hs
      have hlast := Draft.getLast?_text_finish hs
      rw [← htext]
      refine ⟨fun hempty => ?_, hlast, hseparated.sparse⟩
      rw [htext, hempty] at hlast
      cases hlast

/-- Markup and code whose lines are ended, in a quotation and in an item, and an empty document in
front of them. -/
theorem render_sparse_ended_lines :
    ∃ (children : List Node) (text : String),
      children = [.branch .document [], .branch .blockQuote [.leaf (.htmlBlock "<b>\n")],
        .branch (.list false 1) [.branch .listItem [.leaf (.codeBlock "y\n" none)]]] ∧
      text = "\n> \n> \n> <b>\n\n- \n  \n      y\n\n" ∧
      (∀ node ∈ Node.preorderOf children, node.element.OnLines) ∧
      (Node.branch .document children).render {} = .ok text ∧
      text ≠ "" ∧ text.toList.getLast? = some '\n' ∧ ¬ ['\n', '\n', '\n'] <:+: text.toList := by
  have hnodes : ∀ node ∈ Node.preorderOf [.branch .document [],
      .branch .blockQuote [.leaf (.htmlBlock "<b>\n")],
      .branch (.list false 1) [.branch .listItem [.leaf (.codeBlock "y\n" none)]]],
      node.element.OnLines := by
    have hhtml : IsLine "<b>\n" := .inr ⟨"<b>".toList, by decide, by decide, by decide⟩
    have hcode : IsLine "y\n" := .inr ⟨"y".toList, by decide, by decide, by decide⟩
    simp [Node.preorderOf, Node.descendants, Node.element, Element.OnLines, Leaf.OnLines,
      Container.OnLines, hhtml, hcode]
  have hrender : (Node.branch .document [.branch .document [],
      .branch .blockQuote [.leaf (.htmlBlock "<b>\n")],
      .branch (.list false 1) [.branch .listItem [.leaf (.codeBlock "y\n" none)]]]).render {} =
        .ok "\n> \n> \n> <b>\n\n- \n  \n      y\n\n" := by
    decide +kernel
  exact ⟨_, _, rfl, rfl, hnodes, hrender, (render_sparse {} hnodes).2 _ hrender⟩

end MarkdownLayout
