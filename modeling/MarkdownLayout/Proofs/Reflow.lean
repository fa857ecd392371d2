import MarkdownLayout.Proofs.Draft.Gist
import MarkdownLayout.Proofs.Draft.Script

/-!
# Reflowing keeps the words

The text within a paragraph has the same words in the same order at every width: nothing is lost,
doubled or moved past something else when lines are broken elsewhere. Each visit to a node within a
paragraph has one script for all widths, and every gist takes that script, so two drafts of
different widths end with one gist. The main statement is `flowWords_render_eq`.
-/

namespace MarkdownLayout

namespace Gist

/-- Take one step after the other. -/
def run (steps : List Step) (g : Gist) : Gist :=
  steps.foldl apply g

/-- Each of the steps is taken where its turn comes. -/
def TakesAll : List Step → Gist → Prop
  | [], _ => True
  | s :: rest, g => g.Takes s ∧ TakesAll rest (g.apply s)

/-- A backslash makes up the word only if a break is owed behind it. -/
def Settled (g : Gist) : Prop :=
  g.word = ['\\'] → g.owed ≠ .nothing

/-- Steps that are taken between words or within one, and may be followed by others of the kind. -/
def Tame (steps : List Step) : Prop :=
  ∀ g : Gist, g.Settled → g.TakesAll steps ∧ (g.run steps).Settled

/-- Two lists of steps are taken if the first is and the second is taken from where it ends. -/
theorem takesAll_append {steps more : List Step} {g : Gist} (h : g.TakesAll steps)
    (hm : (g.run steps).TakesAll more) : g.TakesAll (steps ++ more) := by
  induction steps generalizing g with
  | nil => exact hm
  | cons s steps ih => exact ⟨h.1, ih h.2 hm⟩

theorem tame_nil : Tame [] :=
  fun _ h => ⟨trivial, h⟩

/-- Tame steps may follow one another. -/
theorem Tame.append {steps more : List Step} (h : Tame steps) (hm : Tame more) :
    Tame (steps ++ more) := by
  intro g hg
  obtain ⟨ht, hs⟩ := h g hg
  obtain ⟨ht', hs'⟩ := hm _ hs
  refine ⟨takesAll_append ht ht', ?_⟩
  rw [run, List.foldl_append]
  exact hs'

theorem Tame.cons {s : Step} {more : List Step} (h : Tame [s]) (hm : Tame more) :
    Tame (s :: more) :=
  h.append hm

/-- Once breaks are paid none are owed. -/
theorem owed_flush (g : Gist) : g.flush.owed = .nothing := by
  unfold flush
  split
  · assumption
  · rfl

/-- No backslash makes up the word behind the breaks owed. -/
theorem Settled.flush {g : Gist} (h : g.Settled) : g.flush.word ≠ ['\\'] := by
  unfold Gist.flush
  split
  · rename_i ho
    exact fun hw => h hw ho
  · exact nofun

/-- A character that is no backslash, or gets one, does not make one up. -/
theorem word_put_ne {escapes : Bool} {c : Char} (hc : escapes = true ∨ c ≠ '\\')
    (next : Option Char) (g : Gist) : (g.put escapes c next).word ≠ ['\\'] := by
  unfold put
  split
  · exact nofun
  · dsimp only [extend]
    intro hw
    split at hw
    · have hl := congrArg List.length hw
      simp at hl
    · rename_i hm
      obtain ⟨hnil, hback⟩ : g.word = [] ∧ c = '\\' := by
        cases hg : g.word with
        | nil => simpa [hg] using hw
        | cons e word =>
          have hl := congrArg List.length hw
          simp [hg] at hl
      rcases hc with he | hc
      · simp [he, hback, marked] at hm
      · exact hc hback

/-- Text with escapes, or without backslashes, is accepted. -/
theorem accepts_of_escapes {escapes : Bool} {cs : List Char}
    (hcs : escapes = true ∨ '\\' ∉ cs) {g : Gist} (h : g.word ≠ ['\\']) :
    g.Accepts escapes cs ∧ (g.putAll escapes cs).word ≠ ['\\'] := by
  induction cs generalizing g with
  | nil => exact ⟨trivial, h⟩
  | cons c rest ih =>
    have hc : escapes = true ∨ c ≠ '\\' :=
      hcs.imp_right fun hn he => hn (he ▸ List.mem_cons_self)
    have hrest : escapes = true ∨ '\\' ∉ rest :=
      hcs.imp_right fun hn hm => hn (List.mem_cons_of_mem c hm)
    obtain ⟨ha, hw⟩ := ih hrest (word_put_ne hc rest.head? g)
    exact ⟨⟨fun hg => absurd hg h, ha⟩, hw⟩

/-- A span is tame if its backslashes are escaped, or if it has none. -/
theorem tame_emit {policy : Policy} {span : String}
    (h : policy.escapes = true ∨ '\\' ∉ Draft.charsOf policy span) : Tame [.emit policy span] := by
  intro g hg
  obtain ⟨ha, hw⟩ := accepts_of_escapes h hg.flush
  exact ⟨⟨ha, trivial⟩, fun hn => absurd hn hw⟩

/-- A quote within a title has a backslash of its own. -/
theorem tame_quote : Tame [.emit .verbatim "\\\""] := by
  intro g hg
  have hw := hg.flush
  refine ⟨⟨⟨fun hn => absurd hn hw, fun _ => by decide, trivial⟩, trivial⟩, ?_⟩
  intro hn
  have hl := congrArg List.length hn
  simp [run, apply, Draft.charsOf, Policy.verbatim, putAll, put, extend] at hl

/-- A kept line end is a backslash at the end of a line. -/
theorem tame_lineBreak : Tame [.emit .verbatim "\\", .owe .lineEnd] := by
  intro g hg
  have hw := hg.flush
  have ho := owed_flush g
  refine ⟨⟨⟨fun hn => absurd hn hw, trivial⟩, trivial, trivial⟩, fun _ => ?_⟩
  show ((g.flush.extend ['\\']).apply (.owe .lineEnd)).owed ≠ .nothing
  rw [apply, if_pos (by rw [show (g.flush.extend ['\\']).owed = .nothing from ho]; decide)]
  exact nofun

end Gist

/-- Whether a leaf stands within a line, and has no backslash if it is written as it stands. -/
def Leaf.reflows : Leaf → Bool
  | .text _ | .lineBreak | .softBreak => true
  | .code content | .htmlInline content => '\\' ∉ content.toList
  | _ => false

/-- Whether a container stands within a line. -/
def Container.reflows : Container → Bool
  | .strong | .emphasis | .link .. | .image .. => true
  | _ => false

mutual

/-- Whether a tree is made of nodes that stand within a line. -/
def Node.reflows : Node → Bool
  | .leaf l => l.reflows
  | .branch container children => container.reflows && Node.allReflow children

/-- Whether all trees are. -/
def Node.allReflow : List Node → Bool
  | [] => true
  | child :: rest => child.reflows && Node.allReflow rest

end

/-- Whether a visit is to a node that stands within a line. -/
def Visit.reflows (v : Visit) : Bool :=
  match v.element with
  | .leaf leaf => leaf.reflows
  | .container container => container.reflows

mutual

/-- The visits of such a tree are to such nodes. -/
theorem Node.visitsIn_reflows (node : Node) (h : node.reflows) (slot : Slot) :
    ∀ v ∈ node.visitsIn slot, v.reflows := by
  match node, h with
  | .leaf _, h => exact List.forall_mem_singleton.mpr h
  | .branch container children, h =>
    obtain ⟨hc, hchildren⟩ := Bool.and_eq_true_iff.mp h
    have hunder := Node.visitsUnder_reflows children hchildren container 0
    refine List.forall_mem_cons.mpr ⟨hc, List.forall_mem_append.mpr ⟨hunder, ?_⟩⟩
    exact List.forall_mem_singleton.mpr hc

/-- So are those under a container, one child after the other. -/
theorem Node.visitsUnder_reflows (children : List Node) (h : Node.allReflow children)
    (container : Container) (position : Nat) :
    ∀ v ∈ Node.visitsUnder container position children, v.reflows := by
  match children, h with
  | [], _ => exact fun v hv => absurd hv List.not_mem_nil
  | child :: rest, h =>
    obtain ⟨hchild, hrest⟩ := Bool.and_eq_true_iff.mp h
    refine List.forall_mem_append.mpr ⟨?_, ?_⟩
    · exact Node.visitsIn_reflows child hchild (container.slot position)
    · exact Node.visitsUnder_reflows rest hrest container (position + 1)

end

namespace Writer

/-- Squeezing a span adds no character. -/
theorem mem_of_mem_squeezeAfter {c : Char} {after : Bool} {cs : List Char}
    (h : c ∈ squeezeAfter after cs) : c ∈ cs := by
  induction cs generalizing after with
  | nil => exact h
  | cons e cs ih =>
    rw [squeezeAfter] at h
    split at h
    · split at h
      · exact List.mem_cons_of_mem e (ih h)
      · rename_i he _
        rcases List.mem_cons.mp h with hc | hc
        · rw [hc, ← he]
          exact List.mem_cons_self
        · exact List.mem_cons_of_mem e (ih hc)
    · rcases List.mem_cons.mp h with hc | hc
      · rw [hc]
        exact List.mem_cons_self
      · exact List.mem_cons_of_mem e (ih hc)

end Writer

namespace Gist

/-- A span without backslashes is tame. -/
theorem tame_of_notMem {span : String} (h : '\\' ∉ span.toList) (policy : Policy) :
    Tame [.emit policy span] := by
  refine tame_emit (.inr fun hm => h ?_)
  unfold Draft.charsOf at hm
  split at hm
  · exact Writer.mem_of_mem_squeezeAfter hm
  · exact hm

/-- The parts of a title are tame: they are written with escapes. -/
theorem tame_titlePartSteps (parts : List (List Char)) : Tame (titlePartSteps parts) := by
  fun_induction titlePartSteps parts with
  | case1 => exact tame_nil
  | case2 part => exact tame_emit (.inl rfl)
  | case3 part rest _ ih => exact (tame_emit (.inl rfl)).cons (tame_quote.cons ih)

/-- So is a destination with its title. -/
theorem tame_destinationSteps (url : String) (title : Option String) :
    Tame (destinationSteps url title) := by
  have ht : Tame (titleSteps title) := by
    unfold titleSteps
    split
    · exact tame_nil
    · split
      · exact tame_nil
      · refine (tame_of_notMem (by decide) _).cons ?_
        exact (tame_titlePartSteps _).append (tame_of_notMem (by decide) _)
  refine (tame_of_notMem (by decide) _).cons ((tame_emit (.inl rfl)).cons ?_)
  exact ht.append (tame_of_notMem (by decide) _)

end Gist

/-- A visit to such a node has one script, and that is tame. -/
theorem Visit.exists_tame_script {v : Visit} (h : v.reflows) :
    ∃ steps, Gist.Tame steps ∧ ∀ settings unwritten, v.script settings unwritten = .ok steps := by
  obtain ⟨event, element, slot⟩ := v
  cases element with
  | leaf leaf =>
    cases leaf with
    | text content => exact ⟨_, Gist.tame_emit (.inl rfl), fun _ _ => rfl⟩
    | lineBreak => exact ⟨_, Gist.tame_lineBreak, fun _ _ => rfl⟩
    | softBreak => exact ⟨_, Gist.tame_of_notMem (by decide) _, fun _ _ => rfl⟩
    | code content =>
      have hc : '\\' ∉ content.toList := of_decide_eq_true h
      have hticks : '\\' ∉ (codeDelimiter content).toList := by
        simp [codeDelimiter, ticks, tick]
      have hpadded : '\\' ∉ (paddedCode content).toList := by
        unfold paddedCode
        split <;> simp [hc]
      exact ⟨_, (Gist.tame_of_notMem hticks _).cons ((Gist.tame_of_notMem hpadded _).cons
        (Gist.tame_of_notMem hticks _)), fun _ _ => rfl⟩
    | htmlInline content =>
      exact ⟨_, Gist.tame_of_notMem (of_decide_eq_true h) _, fun _ _ => rfl⟩
    | _ => cases h
  | container container =>
    have hopen : ∀ span : String, '\\' ∉ span.toList → Gist.Tame [.emit .verbatim span] :=
      fun span hs => Gist.tame_of_notMem hs _
    cases container with
    | strong => cases event <;> exact ⟨_, hopen "**" (by decide), fun _ _ => rfl⟩
    | emphasis => cases event <;> exact ⟨_, hopen "*" (by decide), fun _ _ => rfl⟩
    | link url title =>
      cases event with
      | enter => exact ⟨_, hopen "[" (by decide), fun _ _ => rfl⟩
      | exit | done => exact ⟨_, Gist.tame_destinationSteps url title, fun _ _ => rfl⟩
    | image url title =>
      cases event with
      | enter => exact ⟨_, hopen "![" (by decide), fun _ _ => rfl⟩
      | exit | done => exact ⟨_, Gist.tame_destinationSteps url title, fun _ _ => rfl⟩
    | _ => cases h

namespace Gist

/-- The breaks behind a paragraph and a document complete the word. -/
theorem takesAll_breaks (g : Gist) :
    g.TakesAll [.owe .blankLine, .owe .lineEnd] ∧
      (g.run [.owe .blankLine, .owe .lineEnd]).flush = ⟨addWord g.words g.word, [], .nothing⟩ := by
  obtain ⟨words, word, owed⟩ := g
  refine ⟨⟨trivial, trivial, trivial⟩, ?_⟩
  cases owed <;> rfl

/-- So does the line end of a document without text. -/
theorem takesAll_end (g : Gist) :
    g.TakesAll [.owe .blankLine, .emit .verbatim "\n", .owe .lineEnd] ∧
      (g.run [.owe .blankLine, .emit .verbatim "\n", .owe .lineEnd]).flush =
        ⟨addWord g.words g.word, [], .nothing⟩ := by
  obtain ⟨words, word, owed⟩ := g
  refine ⟨⟨trivial, ⟨fun _ => by decide, trivial⟩, trivial, trivial⟩, ?_⟩
  cases owed <;> rfl

/-- Steps that some gist takes are not refused. -/
theorem perform_of_takesAll {g : Gist} {steps : List Step} (h : g.TakesAll steps) (d : Draft) :
    d.perform steps = .ok (d.run steps) := by
  induction steps generalizing g d with
  | nil => rfl
  | cons s steps ih =>
    have hr : d.refusal s = none := by
      cases s with
      | pop expected => exact absurd h.1 id
      | _ => rfl
    rw [Draft.perform, hr]
    exact ih h.2 (d.apply s)

end Gist

/-- Visits to such nodes have one script for all widths. -/
theorem exists_tame_of_reflows {visits : List Visit} (h : ∀ v ∈ visits, v.reflows) :
    ∃ steps, Gist.Tame steps ∧
      ∀ settings d, draftOfVisits settings visits d = .ok (d.run steps) := by
  induction visits with
  | nil => exact ⟨[], Gist.tame_nil, fun _ _ => rfl⟩
  | cons v visits ih =>
    obtain ⟨hv, hvisits⟩ := List.forall_mem_cons.mp h
    obtain ⟨steps, htame, hscript⟩ := Visit.exists_tame_script hv
    obtain ⟨rest, hrest, hrun⟩ := ih hvisits
    refine ⟨steps ++ rest, htame.append hrest, fun settings d => ?_⟩
    have htakes := (htame {} nofun).1
    have hvisit : d.visit settings v = .ok (d.run steps) := by
      rw [Draft.visit, hscript]
      exact Gist.perform_of_takesAll htakes d
    rw [draftOfVisits_cons, hvisit, Draft.run_append]
    exact hrun settings (d.run steps)

namespace Draft.Flowing

variable {d : Draft}

/-- A run does to the gist what it does to the draft. -/
theorem run (h : d.Flowing) {steps : List Step} (hs : d.gist.TakesAll steps) :
    (d.run steps).Flowing ∧ (d.run steps).gist = d.gist.run steps := by
  induction steps generalizing d with
  | nil => exact ⟨h, rfl⟩
  | cons s steps ih =>
    obtain ⟨happly, hgist⟩ := h.apply hs.1
    obtain ⟨hrun, hsame⟩ := ih happly (by rw [hgist]; exact hs.2)
    exact ⟨hrun, hsame.trans (by rw [hgist]; rfl)⟩

/-- The end of the document completes the last word and adds none. -/
theorem conclude (h : d.Flowing) :
    d.conclude.Flowing ∧ flowWords d.conclude.text = addWord d.gist.words d.gist.word := by
  obtain ⟨steps, hd, htakes, hend⟩ : ∃ steps, d.conclude = (d.run steps).flush ∧
      d.gist.TakesAll steps ∧
      (d.gist.run steps).flush = ⟨addWord d.gist.words d.gist.word, [], .nothing⟩ := by
    unfold Draft.conclude Draft.finish
    split
    · exact ⟨[.owe .blankLine, .emit .verbatim "\n", .owe .lineEnd], rfl, Gist.takesAll_end d.gist⟩
    · exact ⟨[.owe .blankLine, .owe .lineEnd], rfl, Gist.takesAll_breaks d.gist⟩
  obtain ⟨hrun, hgist⟩ := h.run htakes
  obtain ⟨hflush, hsame⟩ := hrun.flush
  rw [hgist, hend] at hsame
  rw [hd]
  refine ⟨hflush, (flowWords_eq_read _).trans ?_⟩
  show addWord (d.run steps).flush.gist.words (d.run steps).flush.gist.word = _
  rw [hsame]
  rfl

end Draft.Flowing

/-- What stands within a paragraph has the same words at every width. -/
theorem flowWords_render_eq (inlines : List Node) (h : Node.allReflow inlines)
    (settings settings' : RenderSettings) :
    ∃ text text', (Node.branch .document [.branch .paragraph inlines]).render settings = .ok text ∧
      (Node.branch .document [.branch .paragraph inlines]).render settings' = .ok text' ∧
      flowWords text.toList = flowWords text'.toList := by
  obtain ⟨steps, htame, hdraft⟩ :=
    exists_tame_of_reflows (Node.visitsUnder_reflows inlines h .paragraph 0)
  have hrender : ∀ settings : RenderSettings, ∃ text,
      (Node.branch .document [.branch .paragraph inlines]).render settings = .ok text ∧
      flowWords text.toList =
        addWord (({} : Gist).run steps).words (({} : Gist).run steps).word := by
    intro settings
    have hstart : ({ width := settings.width } : Draft).Flowing := ⟨rfl, rfl, fun _ => rfl, nofun⟩
    obtain ⟨hflow, hgist⟩ := hstart.run (htame {} nofun).1
    obtain ⟨hend, hwords⟩ := hflow.conclude
    refine ⟨_, Node.render_paragraph (hdraft settings _) hend.segments, ?_⟩
    rw [String.toList_ofList, hwords, hgist]
    rfl
  obtain ⟨text, htext, hwords⟩ := hrender settings
  obtain ⟨text', htext', hwords'⟩ := hrender settings'
  exact ⟨text, text', htext, htext', hwords.trans hwords'.symm⟩

/-- Words that are moved with and without a backslash, on short lines and on one. -/
theorem flowWords_render_eq_seven :
    Node.allReflow [.leaf (.text "1. a -b"), .branch (.link "u v" (some "g \"h\""))
      [.leaf .lineBreak, .leaf (.htmlInline "-c  d")]] ∧
    ∃ text text',
      (Node.branch .document [.branch .paragraph [.leaf (.text "1. a -b"),
        .branch (.link "u v" (some "g \"h\""))
          [.leaf .lineBreak, .leaf (.htmlInline "-c  d")]]]).render { width := 7 } = .ok text ∧
      (Node.branch .document [.branch .paragraph [.leaf (.text "1. a -b"),
        .branch (.link "u v" (some "g \"h\""))
          [.leaf .lineBreak, .leaf (.htmlInline "-c  d")]]]).render { width := 0 } = .ok text' ∧
      flowWords text.toList = flowWords text'.toList := by
  have h : Node.allReflow [.leaf (.text "1. a -b"), .branch (.link "u v" (some "g \"h\""))
      [.leaf .lineBreak, .leaf (.htmlInline "-c  d")]] := by decide
  exact ⟨h, flowWords_render_eq _ h { width := 7 } { width := 0 }⟩

end MarkdownLayout
