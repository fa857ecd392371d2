import MarkdownLayout.Proofs.Draft.Script
import MarkdownLayout.Report

/-!
# Trees that cannot be laid out

A tree cannot be laid out when a node has an unknown kind, when an item stands outside a list, or
when an item has to show a number with too many digits to be written. The first such node, in the
order in which nodes are entered, decides the error. All other trees can be laid out: what a
container puts down as its margin is what it takes back, so no margin is ever missing or left over,
and the octets can be read. The main statement is `render_first_defect`.

A layout follows a flat list of visits. The induction is over the tree nevertheless, and what
carries it is that the visits of a whole tree leave the margins as they were.
-/

namespace MarkdownLayout

/-- A node where it stands. -/
structure Site where
  /-- The container around the node; the root of a tree has none. -/
  parent : Option Container
  /-- How many children of the container stand before the node. -/
  position : Nat
  /-- The node without its children. -/
  element : Element
  deriving DecidableEq, Repr

namespace Site

/-- Whether the node is an item that has to show a number of its own, counted from the first one of
its list, and the number has too many digits to be written. -/
def isOverlong (markers : MarkerStyle) (site : Site) : Bool :=
  match site.parent, site.element, markers with
  | some (.list true start), .container .listItem, .sequential =>
    (Text.numeral? (start + site.position)).isNone
  | _, _, _ => false

/-- Why a node cannot be laid out where it stands, if it cannot. -/
def defect? (markers : MarkerStyle) (site : Site) : Option LayoutError :=
  match site.parent, site.element with
  | _, .leaf (.foreign kind) => some (.unknownKind kind)
  | _, .container (.foreign kind) => some (.unknownKind kind)
  | some (.list ..), .container .listItem =>
    if site.isOverlong markers then some .longNumeral else none
  | _, .container .listItem => some .strayItem
  | _, _ => none

/-- The slot that a node has where it stands. -/
def slot (site : Site) : Slot :=
  match site.parent with
  | some container => container.slot site.position
  | none => .stray

end Site

mutual

/-- The nodes of a tree, each before its children. -/
def Node.sites (parent : Option Container) (position : Nat) : Node → List Site
  | .leaf l => [⟨parent, position, .leaf l⟩]
  | .branch container children =>
    ⟨parent, position, .container container⟩ :: Node.sitesOf container 0 children

/-- The nodes of the trees in a container from the given position on, one tree after the other. -/
def Node.sitesOf (parent : Container) (position : Nat) : List Node → List Site
  | [] => []
  | child :: rest => child.sites (some parent) position ++ Node.sitesOf parent (position + 1) rest

end

/-- Why a tree cannot be laid out: what is wrong with the first node with which anything is. -/
def Node.defect? (markers : MarkerStyle) (root : Node) : Option LayoutError :=
  (root.sites none 0).findSome? (Site.defect? markers)

namespace Draft

/-- Steps are taken one list after the other. -/
theorem perform_append {steps more : List Step} {d mid d' : Draft} (h : d.perform steps = .ok mid)
    (hm : mid.perform more = .ok d') : d.perform (steps ++ more) = .ok d' := by
  induction steps generalizing d with
  | nil =>
    cases h
    exact hm
  | cons s steps ih =>
    rw [perform] at h
    rw [List.cons_append, perform]
    split at h
    · cases h
    · exact ih h

/-- Steps that are never refused and leave the margins as they are. -/
def Steady (steps : List Step) : Prop :=
  ∀ d : Draft, ∃ d', d.perform steps = .ok d' ∧ d'.segments = d.segments

namespace Steady

theorem nil : Steady [] :=
  fun d => ⟨d, rfl, rfl⟩

theorem append {steps more : List Step} (h : Steady steps) (hm : Steady more) :
    Steady (steps ++ more) := by
  intro d
  obtain ⟨mid, hd, hs⟩ := h d
  obtain ⟨d', hd', hs'⟩ := hm mid
  exact ⟨d', perform_append hd hd', hs'.trans hs⟩

theorem cons {s : Step} {more : List Step} (h : Steady [s]) (hm : Steady more) :
    Steady (s :: more) :=
  h.append hm

theorem of_forall {steps : List Step} (h : ∀ s ∈ steps, Steady [s]) : Steady steps := by
  induction steps with
  | nil => exact nil
  | cons s steps ih =>
    obtain ⟨hfirst, hrest⟩ := List.forall_mem_cons.mp h
    exact hfirst.cons (ih hrest)

theorem emit (policy : Policy) (span : String) : Steady [.emit policy span] :=
  fun d => ⟨d.emit policy span, rfl, segments_emit policy span d⟩

theorem owe (owed : Owed) : Steady [.owe owed] := by
  intro d
  refine ⟨d.owe owed, rfl, ?_⟩
  unfold Draft.owe
  split <;> rfl

theorem flush : Steady [.flush] :=
  fun d => ⟨d.flush, rfl, segments_flush d⟩

theorem keepLines (on : Bool) : Steady [.keepLines on] :=
  fun d => ⟨{ d with keepsLines := on }, rfl, rfl⟩

end Steady

/-- A margin is put down behind the others. -/
theorem perform_push (segment : String) (d : Draft) :
    ∃ d', d.perform [.push segment] = .ok d' ∧ d'.segments = d.segments ++ [segment] :=
  ⟨d.pushMargin segment, rfl, rfl⟩

/-- The innermost margin is taken back by its name. -/
theorem perform_pop {d : Draft} {segments : List String} {segment : String}
    (h : d.segments = segments ++ [segment]) :
    ∃ d', d.perform [.pop (some segment)] = .ok d' ∧ d'.segments = segments := by
  have hr : d.refusal (.pop (some segment)) = none := by simp [refusal, h]
  refine ⟨d.dropMargin, ?_, ?_⟩
  · simp [perform, hr, apply]
  · simp [dropMargin, h]

/-- Steps between a margin and its return. -/
theorem Steady.within {steps : List Step} (h : Steady steps) (segment : String) :
    Steady ([.push segment] ++ (steps ++ [.pop (some segment)])) := by
  intro d
  obtain ⟨first, hfirst, hs⟩ := perform_push segment d
  obtain ⟨mid, hmid, hs'⟩ := h first
  obtain ⟨last, hlast, hs''⟩ := perform_pop (hs'.trans hs)
  exact ⟨last, perform_append hfirst (perform_append hmid hlast), hs''⟩

/-- A mark is written and a margin put down. -/
theorem perform_enter (mark margin : String) (d : Draft) :
    ∃ d', d.perform [.emit .verbatim mark, .push margin] = .ok d' ∧
      d'.segments = d.segments ++ [margin] := by
  obtain ⟨mid, hm, hs⟩ := Steady.emit .verbatim mark d
  obtain ⟨d', hd, hs'⟩ := perform_push margin mid
  exact ⟨d', perform_append hm hd, by rw [hs', hs]⟩

/-- A margin is taken back and a break owed. -/
theorem perform_exit {d : Draft} {segments : List String} {margin : String}
    (h : d.segments = segments ++ [margin]) (owed : Owed) :
    ∃ d', d.perform [.pop (some margin), .owe owed] = .ok d' ∧ d'.segments = segments := by
  obtain ⟨mid, hm, hs⟩ := perform_pop h
  obtain ⟨d', hd, hs'⟩ := Steady.owe owed mid
  exact ⟨d', perform_append hm hd, hs'.trans hs⟩

end Draft

theorem destinationSteps_steady (url : String) (title : Option String) :
    Draft.Steady (destinationSteps url title) := by
  refine Draft.Steady.of_forall fun s hs => ?_
  obtain ⟨policy, span, rfl⟩ := exists_emit_of_mem_destinationSteps url title s hs
  exact .emit policy span

/-- What comes of visits: the first defect, or a draft with the given margins. -/
def Settles (defect : Option LayoutError) (segments : List String)
    (result : Except LayoutError Draft) : Prop :=
  match defect with
  | some error => result = .error error
  | none => ∃ d, result = .ok d ∧ d.segments = segments

namespace Settles

/-- Of two lists of visits the first one decides, unless nothing is wrong with it. -/
theorem bind {first second : Option LayoutError} {segments segments' : List String}
    {result : Except LayoutError Draft} {next : Draft → Except LayoutError Draft}
    (h : Settles first segments result)
    (hnext : first = none → ∀ d, d.segments = segments → Settles second segments' (next d)) :
    Settles (first.or second) segments' (result.bind next) := by
  cases first with
  | some error =>
    have he : result = .error error := h
    rw [he]
    rfl
  | none =>
    obtain ⟨d, hd, hs⟩ := h
    rw [hd]
    exact hnext rfl d hs

/-- A visit whose steps are taken. -/
theorem visit {settings : RenderSettings} {v : Visit} {d : Draft} {steps : List Step}
    {segments : List String} (hs : v.script settings d.text.isEmpty = .ok steps)
    (hd : ∃ d', d.perform steps = .ok d' ∧ d'.segments = segments) :
    Settles none segments (d.visit settings v) := by
  rw [Draft.visit, hs]
  exact hd

/-- A draft that comes of visits has the given margins. -/
theorem segments_eq {defect : Option LayoutError} {segments : List String} {d : Draft}
    (h : Settles defect segments (.ok d)) : d.segments = segments := by
  cases defect with
  | some error => cases h
  | none =>
    obtain ⟨_, he, hs⟩ := h
    cases he
    exact hs

end Settles

/-- A leaf is written unless its kind is unknown. -/
theorem settles_leaf (settings : RenderSettings) (parent : Option Container) (position : Nat)
    (slot : Slot) (leaf : Leaf) (d : Draft) :
    Settles (Site.defect? settings.markers ⟨parent, position, .leaf leaf⟩) d.segments
      (d.visit settings ⟨.enter, .leaf leaf, slot⟩) := by
  have hb := Draft.Steady.owe .blankLine
  have hl := Draft.Steady.owe .lineEnd
  have he := Draft.Steady.emit
  cases leaf with
  | foreign kind => rfl
  | codeBlock content info =>
    refine .visit rfl (((hb.append ?_).append hb) d)
    split
    · exact .cons (he _ _) (.cons (he _ _) (.cons hl (.cons (he _ _) (.cons hl (he _ _)))))
    · exact .cons (he _ _) ((he .verbatim content).within codeMargin)
  | htmlBlock content => exact .visit rfl (hb.cons ((he _ _).cons hb) d)
  | thematicBreak => exact .visit rfl (hb.cons ((he _ _).cons hb) d)
  | lineBreak => exact .visit rfl ((he _ _).cons hl d)
  | code content => exact .visit rfl ((he _ _).cons ((he _ _).cons (he _ _)) d)
  | text content | softBreak | htmlInline content => exact .visit rfl (he _ _ d)

/-- The margins that a container puts down. -/
def Container.margins (settings : RenderSettings) (slot : Slot) : Container → List String
  | .blockQuote => [quoteMargin]
  | .listItem =>
    match slot.layout settings.markers with
    | .ok item => [item.margin]
    | .error _ => []
  | _ => []

/-- Every slot is the slot of a node somewhere. -/
theorem Slot.exists_site (slot : Slot) (element : Element) :
    ∃ parent position, (⟨parent, position, element⟩ : Site).slot = slot := by
  cases slot with
  | stray => exact ⟨none, 0, rfl⟩
  | bullet => exact ⟨some (.list false 0), 0, rfl⟩
  | numbered ordinal => exact ⟨some (.list true ordinal), 0, by simp [Site.slot, Container.slot]⟩

/-- An item has a layout exactly when nothing is wrong with it where it stands. -/
theorem Site.defect?_listItem (markers : MarkerStyle) (site : Site)
    (h : site.element = .container .listItem) :
    (∃ item, site.slot.layout markers = .ok item ∧ site.defect? markers = none) ∨
      ∃ error, site.slot.layout markers = .error error ∧ site.defect? markers = some error := by
  obtain ⟨parent, position, element⟩ := site
  dsimp only at h
  subst h
  cases parent with
  | none => exact .inr ⟨.strayItem, rfl, rfl⟩
  | some container =>
    cases container with
    | list ordered start =>
      cases ordered with
      | false => exact .inl ⟨_, rfl, rfl⟩
      | true =>
        cases markers with
        | fixed => exact .inl ⟨_, rfl, rfl⟩
        | sequential =>
          cases hn : Text.numeral? (start + position) with
          | none =>
            refine .inr ⟨.longNumeral, ?_, ?_⟩
            · simp only [Site.slot, Container.slot, Slot.layout, hn]
            · simp [Site.defect?, Site.isOverlong, hn]
          | some numeral =>
            refine .inl ⟨.ofNumeral numeral, ?_, ?_⟩
            · simp only [Site.slot, Container.slot, Slot.layout, hn]
            · simp [Site.defect?, Site.isOverlong, hn]
    | _ => exact .inr ⟨.strayItem, rfl, rfl⟩

/-- A container is entered unless something is wrong with it, and puts down its margins. -/
theorem settles_enter (settings : RenderSettings) (site : Site) {container : Container}
    (hsite : site.element = .container container) (d : Draft) :
    Settles (site.defect? settings.markers) (d.segments ++ container.margins settings site.slot)
      (d.visit settings ⟨.enter, .container container, site.slot⟩) := by
  have hsteady : ∀ {steps : List Step}, Draft.Steady steps →
      ∃ d', d.perform steps = .ok d' ∧ d'.segments = d.segments ++ [] := by
    intro steps hs
    rw [List.append_nil]
    exact hs d
  obtain ⟨parent, position, element⟩ := site
  dsimp only at hsite
  subst hsite
  cases container with
  | foreign kind => rfl
  | blockQuote => exact .visit rfl (Draft.perform_enter _ _ d)
  | listItem =>
    rcases Site.defect?_listItem settings.markers ⟨parent, position, _⟩ rfl with
      ⟨item, hi, hd⟩ | ⟨error, hi, hd⟩
    · rw [hd]
      simp only [Container.margins, hi]
      exact .visit (Visit.script_enter_listItem hi _) (Draft.perform_enter _ _ d)
    · rw [hd, Draft.visit, Visit.script_listItem_error hi]
      rfl
  | heading level => exact .visit rfl (hsteady (.cons (.emit _ _) (.keepLines _)))
  | document | list | paragraph => exact .visit rfl (hsteady .nil)
  | strong | emphasis | link | image => exact .visit rfl (hsteady (.emit _ _))

/-- A container that was entered can be left, and takes its margins back. -/
theorem settles_leave (settings : RenderSettings) (site : Site) {container : Container}
    (hsite : site.element = .container container) (hc : site.defect? settings.markers = none)
    {segments : List String} {d : Draft}
    (hd : d.segments = segments ++ container.margins settings site.slot) :
    Settles none segments (d.visit settings ⟨.exit, .container container, site.slot⟩) := by
  have hsteady : ∀ {steps : List Step}, d.segments = segments ++ [] → Draft.Steady steps →
      ∃ d', d.perform steps = .ok d' ∧ d'.segments = segments := by
    intro steps hd hs
    rw [← hd.trans (List.append_nil segments)]
    exact hs d
  obtain ⟨parent, position, element⟩ := site
  dsimp only at hsite
  subst hsite
  cases container with
  | foreign kind => cases hc
  | blockQuote => exact .visit rfl (Draft.perform_exit hd .blankLine)
  | listItem =>
    rcases Site.defect?_listItem settings.markers ⟨parent, position, _⟩ rfl with
      ⟨item, hi, hdefect⟩ | ⟨error, hi, hdefect⟩
    · simp only [Container.margins, hi] at hd
      exact .visit (Visit.script_exit_listItem hi _) (Draft.perform_exit hd .lineEnd)
    · rw [hdefect] at hc
      cases hc
  | document =>
    have hend := Draft.Steady.cons (.owe .lineEnd) .flush
    refine .visit rfl (hsteady hd ?_)
    split
    · exact .cons (.emit _ _) hend
    · exact hend
  | list => exact .visit rfl (hsteady hd .nil)
  | paragraph => exact .visit rfl (hsteady hd (.owe _))
  | heading level => exact .visit rfl (hsteady hd (.cons (.keepLines _) (.owe _)))
  | strong | emphasis => exact .visit rfl (hsteady hd (.emit _ _))
  | link url title | image url title =>
    exact .visit rfl (hsteady hd (destinationSteps_steady url title))

mutual

/-- The visits of a tree meet its first defect, or leave the margins as they were. -/
theorem Node.settles_visitsIn (settings : RenderSettings) (parent : Option Container)
    (position : Nat) {slot : Slot} (node : Node)
    (h : (⟨parent, position, node.element⟩ : Site).slot = slot) (d : Draft) :
    Settles ((node.sites parent position).findSome? (Site.defect? settings.markers)) d.segments
      (draftOfVisits settings (node.visitsIn slot) d) := by
  match node with
  | .leaf l =>
    rw [Node.sites, Node.visitsIn, List.findSome?_singleton, draftOfVisits_singleton]
    exact settles_leaf settings parent position slot l d
  | .branch container children =>
    subst h
    rw [Node.sites, Node.visitsIn, ← List.singleton_append, List.findSome?_append,
      List.findSome?_singleton, draftOfVisits_cons]
    refine (settles_enter settings ⟨parent, position, _⟩ rfl d).bind fun hc entered hentered => ?_
    have hunder := Node.settles_visitsUnder settings container 0 children entered
    rw [draftOfVisits_append, ← Option.or_none (o := List.findSome? _ _)]
    refine hunder.bind fun _ last hlast => ?_
    rw [draftOfVisits_singleton]
    exact settles_leave settings _ rfl hc (hlast.trans hentered)

/-- So do the visits of the trees in a container. -/
theorem Node.settles_visitsUnder (settings : RenderSettings) (container : Container)
    (position : Nat) (nodes : List Node) (d : Draft) :
    Settles ((Node.sitesOf container position nodes).findSome? (Site.defect? settings.markers))
      d.segments (draftOfVisits settings (Node.visitsUnder container position nodes) d) := by
  match nodes with
  | [] => exact ⟨d, rfl, rfl⟩
  | child :: rest =>
    rw [Node.sitesOf, Node.visitsUnder, List.findSome?_append, draftOfVisits_append]
    refine (Node.settles_visitsIn settings (some container) position child rfl d).bind ?_
    intro _ mid hs
    rw [← hs]
    exact Node.settles_visitsUnder settings container (position + 1) rest mid

end

/-- A tree has a draft without margins, unless something is wrong with it. -/
theorem Node.settles_draft (settings : RenderSettings) (root : Node) :
    Settles (root.defect? settings.markers) [] (root.draft settings) :=
  Node.settles_visitsIn settings none 0 root rfl { width := settings.width }

/-- Visits that, in any layout, leave the margins as they found them. -/
def Balanced (settings : RenderSettings) (visits : List Visit) : Prop :=
  ∀ (before : List Visit) (w w' : Writer),
    before.forM (Visit.write settings) settings.writer = .ok () w →
    visits.forM (Visit.write settings) w = .ok () w' →
    w'.segments = w.segments ∧ w'.margin = w.margin

/-- Visits that succeed leave the writer of a draft. -/
theorem exists_draft_of_forM_write {settings : RenderSettings} {visits : List Visit} {d : Draft}
    {w : Writer} (h : visits.forM (Visit.write settings) d.toWriter = .ok () w) :
    ∃ d', draftOfVisits settings visits d = .ok d' ∧ w = d'.toWriter := by
  have hf := forM_write_toWriter settings visits d
  rw [h] at hf
  cases hd : draftOfVisits settings visits d with
  | error error =>
    rw [hd] at hf
    obtain ⟨_, hf⟩ := hf
    cases hf
  | ok d' =>
    rw [hd] at hf
    cases hf
    exact ⟨d', rfl, rfl⟩

theorem balanced_of_settles {settings : RenderSettings} {visits : List Visit}
    (h : ∀ d, ∃ defect, Settles defect d.segments (draftOfVisits settings visits d)) :
    Balanced settings visits := by
  intro before w w' hw hw'
  obtain ⟨d, _, rfl⟩ := exists_draft_of_forM_write (d := { width := settings.width }) hw
  obtain ⟨d', hd', rfl⟩ := exists_draft_of_forM_write hw'
  have hs : d'.segments = d.segments := by
    obtain ⟨defect, hdefect⟩ := h d
    rw [hd'] at hdefect
    exact hdefect.segments_eq
  refine ⟨hs, ?_⟩
  show (Text.Utf8.encode d'.margin).toArray = (Text.Utf8.encode d.margin).toArray
  rw [Draft.margin, hs]
  rfl

/-- Only three things can be wrong with a node. -/
theorem Site.eq_of_defect?_eq_some {markers : MarkerStyle} {site : Site} {error : LayoutError}
    (h : site.defect? markers = some error) :
    (∃ kind, error = .unknownKind kind) ∨ error = .strayItem ∨
      error = .longNumeral ∧ site.isOverlong markers := by
  unfold Site.defect? at h
  split at h
  · exact .inl ⟨_, (Option.some.inj h).symm⟩
  · exact .inl ⟨_, (Option.some.inj h).symm⟩
  · split at h
    · exact .inr (.inr ⟨(Option.some.inj h).symm, ‹_›⟩)
    · cases h
  · exact .inr (.inl (Option.some.inj h).symm)
  · cases h

/-- A tree has an error exactly when something is wrong with a node, and it is that of the first
such node: an unknown kind, an item outside a list, or an item whose number cannot be written.
Otherwise it has octets, and they are a text. Every container, and all that stands in it, leaves the
margins as it found them. -/
theorem render_first_defect (settings : RenderSettings) (root : Node) :
    (match root.defect? settings.markers with
      | some error =>
        root.renderOctets settings = .error error ∧ root.render settings = .error error ∧
          ((∃ kind, error.failure = .reported (.unknownKind kind) none) ∨
            error.failure = .reported
              (.rendering "ListItem is not attached to a List" (some "dispatch"))
              (some .strayItem) ∨
            error.failure = .longNumeral ∧
              ∃ site ∈ root.sites none 0, site.isOverlong settings.markers)
      | none =>
        ∃ octets text, root.renderOctets settings = .ok octets ∧
          Text.Utf8.text octets = .ok text ∧ root.render settings = .ok text) ∧
    ∀ container children slot,
      Balanced settings ((Node.branch container children).visitsIn slot) ∧
        Balanced settings (Node.visitsUnder container 0 children) := by
  refine ⟨?_, fun container children slot => ⟨?_, ?_⟩⟩
  · have hsettles := Node.settles_draft settings root
    cases hdefect : root.defect? settings.markers with
    | some error =>
      rw [hdefect] at hsettles
      have hdraft : root.draft settings = .error error := hsettles
      obtain ⟨site, hmem, hsite⟩ := List.exists_of_findSome?_eq_some hdefect
      refine ⟨?_, ?_, ?_⟩
      · rw [Node.renderOctets_eq, hdraft]
        rfl
      · rw [Node.render_eq, hdraft]
        rfl
      · rcases Site.eq_of_defect?_eq_some hsite with ⟨kind, rfl⟩ | rfl | ⟨rfl, hlong⟩
        · exact .inl ⟨kind, rfl⟩
        · exact .inr (.inl rfl)
        · exact .inr (.inr ⟨rfl, site, hmem, hlong⟩)
    | none =>
      rw [hdefect] at hsettles
      obtain ⟨d, hdraft, hs⟩ := hsettles
      have hdetach : d.detach = .ok d.text := by
        rw [Draft.detach, hs]
        rfl
      refine ⟨Text.Utf8.encode d.text, String.ofList d.text, ?_, ?_, ?_⟩
      · rw [Node.renderOctets_eq, hdraft]
        show d.detach.map _ = _
        rw [hdetach]
        rfl
      · rw [Text.Utf8.text, Text.Utf8.decode_encode]
        rfl
      · exact Node.render_eq_ok_iff.mpr ⟨d, hdraft, hs, String.toList_ofList.symm⟩
  · obtain ⟨parent, position, hslot⟩ := slot.exists_site (.container container)
    exact balanced_of_settles fun d => ⟨_, Node.settles_visitsIn settings parent position _ hslot d⟩
  · exact balanced_of_settles fun d =>
      ⟨_, Node.settles_visitsUnder settings container 0 children d⟩

end MarkdownLayout
