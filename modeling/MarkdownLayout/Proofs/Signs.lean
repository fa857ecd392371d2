import MarkdownLayout.Proofs.BlockStart
import MarkdownLayout.Proofs.Draft.Tally
import MarkdownLayout.Proofs.Sequence

/-!
# Signs of images and entities

Within a span the first character of a sign gets a backslash when the second one follows. Between
two spans it does not, as a character is escaped for what follows it in its own span: a text that
ends with such a character makes a sign with a link, or with another text, that comes right after
it.

What a visit does to a reader of the text is said in `Tally.visit`. The main statement is
`count_render_eq`: there is one sign for every image, and one for every two neighbours that make
one.
-/

namespace MarkdownLayout

/-- Where there are escapes, runs of blanks are read alike whether or not they are made one. -/
theorem Tally.putAll_charsOf (sign : Sign) {t : Tally} (ht : t.stance ≠ .escaped) (policy : Policy)
    (span : String) :
    t.putAll sign true (Draft.charsOf policy span) = t.putAll sign true span.toList := by
  unfold Draft.charsOf
  split
  · cases hspan : span.toList with
    | nil => rfl
    | cons c rest =>
      have hhead := Writer.head?_squeeze (c :: rest)
      have hlast : (Writer.squeeze (c :: rest)).getLast? = (c :: rest).getLast? :=
        (Writer.getLast?_squeezeAfter (c :: rest)).1
      have hne : Writer.squeeze (c :: rest) ≠ [] := by
        intro hn
        rw [hn] at hhead
        cases hhead
      rw [putAll_escaped sign hne ht, putAll_escaped sign (List.cons_ne_nil c rest) ht, hhead,
        hlast]
  · rfl

/-- Steps take every draft of which a reader has seen `t` to one of which it has seen `t'`. -/
def Leads (sign : Sign) (t : Tally) (steps : List Step) (t' : Tally) : Prop :=
  ∀ d : Draft, d.Tallied sign t → ∃ d', d.perform steps = .ok d' ∧ d'.Tallied sign t'

namespace Leads

variable {sign : Sign} {t mid t' : Tally}

theorem nil (sign : Sign) (t : Tally) : Leads sign t [] t :=
  fun d h => ⟨d, rfl, h⟩

theorem append {steps more : List Step} (h : Leads sign t steps mid) (hm : Leads sign mid more t') :
    Leads sign t (steps ++ more) t' := by
  intro d hd
  obtain ⟨e, he, hmid⟩ := h d hd
  obtain ⟨d', hd', ht⟩ := hm e hmid
  exact ⟨d', Draft.perform_append he hd', ht⟩

theorem cons {s : Step} {steps : List Step} (h : Leads sign t [s] mid)
    (hm : Leads sign mid steps t') : Leads sign t (s :: steps) t' :=
  h.append hm

/-- A span that is written as it stands. -/
theorem verbatim (sign : Sign) (t : Tally) (span : String) :
    Leads sign t [.emit .verbatim span] (span.toList.foldl (Tally.next sign) t) := by
  intro d hd
  refine ⟨_, rfl, ?_⟩
  have hemit := hd.emit .verbatim (fun he => by cases he) span
  exact (Tally.putAll_verbatim sign span.toList t) ▸ hemit

/-- A span that is no part of a sign. -/
theorem quiet {span : String} (h : ∀ c ∈ span.toList, c ∈ MarkdownLayout.quiet)
    (hne : span.toList ≠ []) : Leads sign t [.emit .verbatim span] ⟨.plain, t.count⟩ := by
  rw [← Tally.foldl_quiet sign h hne t]
  exact verbatim sign t span

/-- A blank that may become a line end. -/
theorem blank (sign : Sign) (t : Tally) :
    Leads sign t [.emit .flowing " "] ⟨.plain, t.count⟩ := by
  intro d hd
  refine ⟨_, rfl, ?_⟩
  have hemit := hd.emit .flowing (fun he => by cases he) " "
  have hblank : Draft.charsOf (d.effective .flowing) " " = [' '] := by
    unfold Draft.charsOf
    split <;> rfl
  rw [hblank] at hemit
  rw [← Tally.next_quiet sign (c := ' ') (by simp [MarkdownLayout.quiet]) t]
  exact hemit

/-- A span with escapes. -/
theorem escaped (policy : Policy) (hp : policy.escapes = true) (ht : t.stance ≠ .escaped)
    (span : String) :
    Leads sign t [.emit policy span] (t.putAll sign true span.toList) := by
  intro d hd
  refine ⟨_, rfl, ?_⟩
  have hemit := hd.emit policy (fun _ => ht) span
  rw [hp, Tally.putAll_charsOf sign ht] at hemit
  exact hemit

/-- The start of a link completes the sign of an image. -/
theorem openLink (ht : t.stance ≠ .escaped) :
    Leads sign t [.emit .verbatim "["]
      ⟨.plain, t.count + (t.stance.isMarked && sign = .image).toNat⟩ := by
  rw [← Tally.next_bracket sign ht]
  exact verbatim sign t "["

/-- The start of an image is the sign of one. -/
theorem openImage (ht : t.stance ≠ .escaped) :
    Leads sign t [.emit .verbatim "!["] ⟨.plain, t.count + (decide (sign = .image)).toNat⟩ := by
  have hread : "![".toList.foldl (Tally.next sign) t =
      ⟨.plain, t.count + (decide (sign = .image)).toNat⟩ := by
    show (t.next sign '!').next sign '[' = _
    rw [Tally.next_bang sign ht, Tally.next_bracket sign (Stance.ofMarked_ne_escaped _),
      Stance.isMarked_ofMarked, Bool.and_self]
  rw [← hread]
  exact verbatim sign t "!["

/-- Behind something that does not matter a span with escapes makes and completes no sign. -/
theorem guarded (sign : Sign) (count : Nat) (span : String) :
    ∃ b, Leads sign ⟨.plain, count⟩ [.emit .guarded span] ⟨.ofMarked b, count⟩ := by
  have hplain : (⟨.plain, count⟩ : Tally).stance ≠ .escaped := by simp
  have hspan : Leads sign ⟨.plain, count⟩ [.emit .guarded span] _ :=
    escaped .guarded rfl hplain span
  cases hs : span.toList with
  | nil => exact ⟨false, by rwa [hs] at hspan⟩
  | cons c rest =>
    rw [hs, Tally.putAll_escaped sign (List.cons_ne_nil c rest) hplain] at hspan
    exact ⟨_, hspan⟩

/-- The parts of a title and the quotes between them. -/
theorem titleParts (sign : Sign) (count : Nat) (parts : List (List Char)) :
    ∃ b, Leads sign ⟨.plain, count⟩ (titlePartSteps parts) ⟨.ofMarked b, count⟩ := by
  fun_induction titlePartSteps parts with
  | case1 => exact ⟨false, nil sign _⟩
  | case2 part => exact guarded sign count _
  | case3 part rest _ ih =>
    obtain ⟨b, hpart⟩ := guarded sign count (String.ofList part)
    obtain ⟨b', hrest⟩ := ih
    have hquote := verbatim sign ⟨.ofMarked b, count⟩ "\\\""
    have hpair :=
      Tally.foldl_escaped sign (t := ⟨.ofMarked b, count⟩) (Stance.ofMarked_ne_escaped b) '"'
    exact ⟨b', hpart.cons ((hpair ▸ hquote).cons hrest)⟩

/-- A title makes no sign. -/
theorem title (sign : Sign) (b : Bool) (count : Nat) (title : Option String) :
    ∃ b', Leads sign ⟨.ofMarked b, count⟩ (titleSteps title) ⟨.ofMarked b', count⟩ := by
  unfold titleSteps
  split
  · exact ⟨b, nil sign _⟩
  · split
    · exact ⟨b, nil sign _⟩
    · rename_i text _
      obtain ⟨_, hparts⟩ := titleParts sign count (Text.cutAt '"' text.toList)
      have hopen : Leads sign ⟨.ofMarked b, count⟩ [.emit .verbatim " \""] ⟨.plain, count⟩ :=
        quiet (by simp [MarkdownLayout.quiet]) (by simp)
      exact ⟨false, hopen.cons (hparts.append (quiet (by simp [MarkdownLayout.quiet]) (by simp)))⟩

/-- The destination of a link or an image makes no sign. -/
theorem destination (sign : Sign) (t : Tally) (url : String) (title : Option String) :
    Leads sign t (destinationSteps url title) ⟨.plain, t.count⟩ := by
  have hopen : Leads sign t [.emit .verbatim "]("] ⟨.plain, t.count⟩ :=
    quiet (by simp [MarkdownLayout.quiet]) (by simp)
  obtain ⟨b, hurl⟩ := guarded sign t.count url
  obtain ⟨_, htitle⟩ := Leads.title sign b t.count title
  exact hopen.cons (hurl.cons (htitle.append (quiet (by simp [MarkdownLayout.quiet]) (by simp))))

end Leads

/-- The kinds of nodes within a line whose own characters are all escaped if need be. -/
def Element.isRunning : Element → Bool
  | .leaf (.text _) | .leaf .softBreak => true
  | .container .strong | .container .emphasis | .container (.link ..)
  | .container (.image ..) => true
  | _ => false

/-- Whether a node is an image. -/
def Element.isImage : Element → Bool
  | .container (.image ..) => true
  | _ => false

namespace Visit

/-- Whether a visit writes nothing: it is one to a text without characters. -/
def isSilent (v : Visit) : Bool :=
  match v.element with
  | .leaf (.text content) => content.toList.isEmpty
  | _ => false

/-- Whether a visit ends with the first character of a sign: it is one to a text that does. -/
def begins (sign : Sign) (v : Visit) : Bool :=
  match v.element with
  | .leaf (.text content) => content.toList.getLast? = some sign.mark
  | _ => false

/-- Whether a visit completes a sign: it enters a link, or it is one to a text that begins with a
letter. -/
def completes (sign : Sign) (v : Visit) : Bool :=
  match v.element, v.event with
  | .leaf (.text content), _ => content.toList.head?.any sign.completes
  | .container (.link ..), .enter => sign = .image
  | _, _ => false

/-- Whether a visit makes a whole sign: it enters an image. -/
def makes (sign : Sign) (v : Visit) : Bool :=
  sign = .image && v.event = .enter && v.element.isImage

end Visit

/-- How many neighbours among visits begin and complete a sign between them. -/
def Sign.joined (sign : Sign) (visits : List Visit) : Nat :=
  (visits.zip visits.tail).countP fun pair => pair.1.begins sign && pair.2.completes sign

/-- How often a text that ends with the first character of a sign has right behind it what completes
the sign. Texts without characters are passed over. -/
def Sign.meetings (sign : Sign) (inlines : List Node) : Nat :=
  sign.joined ((Node.visitsUnder .paragraph 0 inlines).filter fun v => !v.isSilent)

namespace Tally

/-- What a visit does to a reader. -/
def visit (sign : Sign) (t : Tally) (v : Visit) : Tally :=
  if v.isSilent then t
  else ⟨.ofMarked (v.begins sign),
    t.count + (t.stance.isMarked && v.completes sign).toNat + (v.makes sign).toNat⟩

/-- A visit that has no part in a sign. -/
theorem visit_idle (sign : Sign) (t : Tally) {v : Visit} (hs : v.isSilent = false)
    (hb : v.begins sign = false) (hc : v.completes sign = false) (hm : v.makes sign = false) :
    t.visit sign v = ⟨.plain, t.count⟩ := by
  simp [visit, hs, hb, hc, hm, Stance.ofMarked]

/-- The exit from a container has no part in a sign. -/
theorem visit_left (sign : Sign) (t : Tally) {event : Event} (he : event ≠ .enter)
    (container : Container) (slot : Slot) :
    t.visit sign ⟨event, .container container, slot⟩ = ⟨.plain, t.count⟩ := by
  have hc : Visit.completes sign ⟨event, .container container, slot⟩ = false := by
    cases event with
    | enter => exact absurd rfl he
    | exit | done => cases container <;> rfl
  exact visit_idle sign t rfl rfl hc (by simp [Visit.makes, he])

theorem visit_ne_escaped (sign : Sign) {t : Tally} (ht : t.stance ≠ .escaped) (v : Visit) :
    (t.visit sign v).stance ≠ .escaped := by
  unfold visit
  split
  · exact ht
  · exact Stance.ofMarked_ne_escaped _

end Tally

/-- A visit to such a node has one script, and that does to a reader what it should. -/
theorem Visit.exists_leads (sign : Sign) {v : Visit} (hv : v.element.isRunning) {t : Tally}
    (ht : t.stance ≠ .escaped) :
    ∃ steps, Leads sign t steps (t.visit sign v) ∧
      ∀ settings unwritten, v.script settings unwritten = .ok steps := by
  obtain ⟨event, element, slot⟩ := v
  cases element with
  | leaf leaf =>
    cases leaf with
    | text content =>
      refine ⟨_, ?_, fun _ _ => rfl⟩
      have hspan : Leads sign t [.emit .prose content] _ := Leads.escaped .prose rfl ht content
      cases hc : content.toList with
      | nil =>
        rw [hc] at hspan
        simpa [Tally.visit, isSilent, hc, Tally.putAll] using hspan
      | cons c rest =>
        rw [hc, Tally.putAll_escaped sign (List.cons_ne_nil c rest) ht] at hspan
        simpa [Tally.visit, isSilent, begins, completes, makes, Element.isImage, hc] using hspan
    | softBreak =>
      refine ⟨_, ?_, fun _ _ => rfl⟩
      rw [Tally.visit_idle sign t rfl rfl rfl (by simp [makes, Element.isImage])]
      exact Leads.blank sign t
    | _ => cases hv
  | container container =>
    cases container with
    | strong =>
      have hmark : Leads sign t [.emit .verbatim "**"] _ := Leads.quiet (by simp [quiet]) (by simp)
      rw [Tally.visit_idle sign t rfl rfl rfl (by simp [makes, Element.isImage])]
      cases event <;> exact ⟨_, hmark, fun _ _ => rfl⟩
    | emphasis =>
      have hmark : Leads sign t [.emit .verbatim "*"] _ := Leads.quiet (by simp [quiet]) (by simp)
      rw [Tally.visit_idle sign t rfl rfl rfl (by simp [makes, Element.isImage])]
      cases event <;> exact ⟨_, hmark, fun _ _ => rfl⟩
    | link url title =>
      cases event with
      | enter =>
        refine ⟨_, ?_, fun _ _ => rfl⟩
        have hopen : Leads sign t _ _ := Leads.openLink ht
        simpa [Tally.visit, isSilent, begins, completes, makes, Element.isImage,
          Stance.ofMarked] using hopen
      | exit | done =>
        rw [Tally.visit_left sign t (by simp)]
        exact ⟨_, Leads.destination sign t url title, fun _ _ => rfl⟩
    | image url title =>
      cases event with
      | enter =>
        refine ⟨_, ?_, fun _ _ => rfl⟩
        have hopen : Leads sign t _ _ := Leads.openImage ht
        simpa [Tally.visit, isSilent, begins, completes, makes, Element.isImage,
          Stance.ofMarked] using hopen
      | exit | done =>
        rw [Tally.visit_left sign t (by simp)]
        exact ⟨_, Leads.destination sign t url title, fun _ _ => rfl⟩
    | _ => cases hv

/-- Visits to such nodes have a draft, and a reader has seen of it what the visits did. -/
theorem exists_tallied (settings : RenderSettings) (sign : Sign) {visits : List Visit}
    (hv : ∀ v ∈ visits, v.element.isRunning) {t : Tally} (ht : t.stance ≠ .escaped) {d : Draft}
    (hd : d.Tallied sign t) :
    ∃ d', draftOfVisits settings visits d = .ok d' ∧
      d'.Tallied sign (visits.foldl (Tally.visit sign) t) := by
  induction visits generalizing d t with
  | nil => exact ⟨d, rfl, hd⟩
  | cons v visits ih =>
    obtain ⟨hfirst, hrest⟩ := List.forall_mem_cons.mp hv
    obtain ⟨steps, hleads, hscript⟩ := Visit.exists_leads sign hfirst ht
    obtain ⟨mid, hperform, hmid⟩ := hleads d hd
    obtain ⟨d', hd', htallied⟩ := ih hrest (Tally.visit_ne_escaped sign ht v) hmid
    refine ⟨d', ?_, htallied⟩
    have hvisit : d.visit settings v = .ok mid := by
      rw [Draft.visit, hscript]
      exact hperform
    rw [draftOfVisits_cons, hvisit]
    exact hd'

theorem Sign.joined_cons (sign : Sign) (v : Visit) (visits : List Visit) :
    sign.joined (v :: visits) =
      (v.begins sign && visits.head?.any (Visit.completes sign)).toNat + sign.joined visits := by
  cases visits with
  | nil => simp [joined]
  | cons next rest =>
    cases h : v.begins sign && next.completes sign <;> simp [joined, h]
    omega

/-- Each sign is made by one visit or by two neighbours. -/
theorem Tally.count_foldl_visit (sign : Sign) (visits : List Visit) (t : Tally) :
    (visits.foldl (visit sign) t).count =
      t.count + visits.countP (Visit.makes sign) +
        (t.stance.isMarked &&
          (visits.filter fun v => !v.isSilent).head?.any (Visit.completes sign)).toNat +
        sign.joined (visits.filter fun v => !v.isSilent) := by
  induction visits generalizing t with
  | nil => simp [Sign.joined]
  | cons v visits ih =>
    rw [List.foldl_cons, ih, List.countP_cons]
    cases hs : v.isSilent with
    | true =>
      have hm : v.makes sign = false := by
        obtain ⟨event, element, slot⟩ := v
        cases element with
        | leaf leaf => simp [Visit.makes, Element.isImage]
        | container container => cases hs
      simp [visit, hs, hm]
    | false =>
      rw [List.filter_cons_of_pos (by simp [hs]), Sign.joined_cons]
      cases hm : v.makes sign <;> simp [visit, hs, hm] <;> omega

mutual

/-- Every node is entered once. -/
theorem Node.countP_visitsIn (p : Element → Bool) (slot : Slot) (node : Node) :
    (node.visitsIn slot).countP (fun v => v.event = .enter && p v.element) =
      (node :: node.descendants).countP fun visited => p visited.element := by
  match node with
  | .leaf l => simp [Node.visitsIn, Node.descendants, Node.element, List.countP_cons]
  | .branch container children =>
    have hunder := Node.countP_visitsUnder p container 0 children
    simp [Node.visitsIn, Node.descendants, Node.element, List.countP_cons, List.countP_append,
      hunder]

theorem Node.countP_visitsUnder (p : Element → Bool) (container : Container) (position : Nat)
    (nodes : List Node) :
    (Node.visitsUnder container position nodes).countP
        (fun v => v.event = .enter && p v.element) =
      (Node.preorderOf nodes).countP fun visited => p visited.element := by
  match nodes with
  | [] => rfl
  | child :: rest =>
    rw [Node.visitsUnder, Node.preorderOf, ← List.cons_append, List.countP_append,
      List.countP_append, Node.countP_visitsIn p _ child,
      Node.countP_visitsUnder p container (position + 1) rest]

end

/-- The end of the document is read over. -/
theorem Draft.Tallied.count_conclude {sign : Sign} {t : Tally} {d : Draft} (h : d.Tallied sign t) :
    sign.count d.conclude.text = t.count := by
  obtain ⟨_, count, _, htext, _⟩ := text_conclude h.segments
  rw [htext, ← Tally.count_read, Tally.read_append, h.read]
  cases count with
  | zero => rfl
  | succ count =>
    rw [Tally.foldl_quiet sign (by simp [quiet]) (by simp)]

/-- In a paragraph of texts, soft breaks, emphasis, links and images the sign of an image stands
once for every image, and once for every text that ends with an exclamation mark right in front of a
link. The sign of an entity stands once for every text that ends with an ampersand right in front of
a text that begins with a letter. There are no others at any width. -/
theorem count_render_eq {inlines : List Node}
    (h : ∀ node ∈ Node.preorderOf inlines, node.element.isRunning) (settings : RenderSettings) :
    ∃ text, (Node.branch .document [.branch .paragraph inlines]).render settings = .ok text ∧
      Sign.image.count text.toList =
        (Node.preorderOf inlines).countP (fun node => node.element.isImage) +
          Sign.image.meetings inlines ∧
      Sign.entity.count text.toList = Sign.entity.meetings inlines := by
  have hvisits : ∀ v ∈ Node.visitsUnder .paragraph 0 inlines, v.element.isRunning := by
    intro v hv
    obtain ⟨node, hnode, he⟩ := Node.mem_visitsUnder hv
    rw [he]
    exact h node hnode
  have hcount : ∀ sign : Sign, ∃ d,
      draftOfVisits settings (Node.visitsUnder .paragraph 0 inlines) { width := settings.width } =
        .ok d ∧
      d.segments = [] ∧
      sign.count d.conclude.text =
        (Node.visitsUnder .paragraph 0 inlines).countP (Visit.makes sign) +
          sign.meetings inlines := by
    intro sign
    have hstart : ({ width := settings.width } : Draft).Tallied sign {} :=
      ⟨rfl, rfl, rfl, fun _ => rfl⟩
    obtain ⟨d, hd, htallied⟩ := exists_tallied settings sign hvisits (by simp) hstart
    refine ⟨d, hd, htallied.segments, ?_⟩
    rw [htallied.count_conclude, Tally.count_foldl_visit]
    simp [Sign.meetings, Stance.isMarked]
  obtain ⟨d, hd, hs, himage⟩ := hcount .image
  obtain ⟨d', hd', _, hentity⟩ := hcount .entity
  obtain rfl : d = d' := Except.ok.inj (hd.symm.trans hd')
  refine ⟨_, Node.render_paragraph hd (Draft.text_conclude hs).1, ?_, ?_⟩
  · rw [String.toList_ofList, himage, ← Node.countP_visitsUnder Element.isImage .paragraph 0]
    rfl
  · have hnone : (Node.visitsUnder .paragraph 0 inlines).countP (Visit.makes .entity) = 0 :=
      List.countP_eq_zero.mpr (by simp [Visit.makes])
    rw [String.toList_ofList, hentity, hnone, Nat.zero_add]

/-- A text that makes the sign of an image with a link, with a text without characters in between,
two texts that make the sign of an entity, and an image whose own text makes none. -/
theorem count_render_eq_link :
    ∃ inlines : List Node,
      inlines = [.leaf (.text "a &b!"), .leaf (.text ""),
        .branch (.link "u" none) [.leaf (.text "&"), .leaf (.text "amp;")],
        .branch (.image "v" none) [.leaf (.text "![")]] ∧
      (∀ node ∈ Node.preorderOf inlines, node.element.isRunning) ∧
      (Node.preorderOf inlines).countP (fun node => node.element.isImage) = 1 ∧
      Sign.image.meetings inlines = 1 ∧ Sign.entity.meetings inlines = 1 ∧
      ∃ text, (Node.branch .document [.branch .paragraph inlines]).render {} = .ok text ∧
        text = "a \\&b![&amp;](u)![\\!\\[](v)\n\n" ∧
        Sign.image.count text.toList = 2 ∧ Sign.entity.count text.toList = 1 := by
  have h : ∀ node ∈ Node.preorderOf [.leaf (.text "a &b!"), .leaf (.text ""),
      .branch (.link "u" none) [.leaf (.text "&"), .leaf (.text "amp;")],
      .branch (.image "v" none) [.leaf (.text "![")]], node.element.isRunning := by decide
  have himages : Sign.image.meetings [.leaf (.text "a &b!"), .leaf (.text ""),
      .branch (.link "u" none) [.leaf (.text "&"), .leaf (.text "amp;")],
      .branch (.image "v" none) [.leaf (.text "![")]] = 1 := by decide
  have hentities : Sign.entity.meetings [.leaf (.text "a &b!"), .leaf (.text ""),
      .branch (.link "u" none) [.leaf (.text "&"), .leaf (.text "amp;")],
      .branch (.image "v" none) [.leaf (.text "![")]] = 1 := by decide
  obtain ⟨text, hrender, himage, hentity⟩ := count_render_eq h {}
  rw [himages] at himage
  rw [hentities] at hentity
  have htext : (Node.branch .document [.branch .paragraph [.leaf (.text "a &b!"), .leaf (.text ""),
      .branch (.link "u" none) [.leaf (.text "&"), .leaf (.text "amp;")],
      .branch (.image "v" none) [.leaf (.text "![")]]]).render {} =
        .ok "a \\&b![&amp;](u)![\\!\\[](v)\n\n" := by decide +kernel
  exact ⟨_, rfl, h, by decide, himages, hentities, text, hrender,
    Except.ok.inj (hrender.symm.trans htext), himage, hentity⟩

end MarkdownLayout
