import MarkdownLayout.Proofs.Defects
import MarkdownLayout.Proofs.Reachable

/-!
# Visits that fail

A writer may be taken through the nodes of a tree in any order: containers may be left that were
never entered, or left before those that they hold, and a visit that fails need not be the last one.
The main statement is `write_eq_error_iff`: a visit fails for one of five reasons, which can be told
from the visit and the margins put down, and then the writer is as it was before in every field. A
leaf fails only if its kind is unknown.

Visits write with several steps, and most of them cannot fail. Where one can, it is the first: a
container takes back its margin before it does anything else. Code without fences takes back a
margin at its end, but that margin is its own.
-/

namespace MarkdownLayout

/-- Why a margin cannot be taken back, if it cannot. -/
def takeBackFault? (segments : List String) (margin : String) : Option LayoutError :=
  match segments.getLast? with
  | none => some .marginEmpty
  | some top => if top = margin then none else some (.marginMismatch margin top segments.length)

/-- Why an item can be neither entered nor left, if it cannot: it stands outside any list, or it has
to show a number with too many digits to be written. -/
def Slot.fault? (markers : MarkerStyle) : Slot → Option LayoutError
  | .stray => some .strayItem
  | .bullet => none
  | .numbered ordinal =>
    if markers = .sequential ∧ Text.numeral? ordinal = none then some .longNumeral else none

/-- Why a visit fails when the given margins are put down, if it does: its kind is unknown, it is an
item outside a list or with a number that cannot be written, or it takes back a margin that is not
the innermost. -/
def Visit.fault? (settings : RenderSettings) (segments : List String) (v : Visit) :
    Option LayoutError :=
  match v.element with
  | .leaf (.foreign kind) | .container (.foreign kind) => some (.unknownKind kind)
  | .leaf _ => none
  | .container container =>
    (if container = .listItem then v.slot.fault? settings.markers else none).or
      (if v.event = .enter then none
        else (container.margins settings v.slot).findSome? (takeBackFault? segments))

/-- The writer after a list of visits. A visit that fails does not end the list. -/
def Writer.visitAll (settings : RenderSettings) (visits : List Visit) (w : Writer) : Writer :=
  visits.foldl (fun w v => w.leftBy (v.write settings)) w

namespace Draft

/-- A margin is taken back unless there is none or it is another one. -/
theorem refusal_pop (d : Draft) (margin : String) :
    d.refusal (.pop (some margin)) = takeBackFault? d.segments margin := by
  unfold refusal takeBackFault?
  cases d.segments.getLast? with
  | none => rfl
  | some top =>
    by_cases h : top = margin
    · simp [h]
    · simp [h, Ne.symm h]

/-- What comes of a visit: it fails and leaves the writer alone, or it is written. -/
def Fares (settings : RenderSettings) (v : Visit) (d : Draft) (fault : Option LayoutError) : Prop :=
  match fault with
  | some error => v.write settings d.toWriter = .error error d.toWriter
  | none => ∃ d' : Draft, v.write settings d.toWriter = .ok () d'.toWriter

namespace Fares

variable {settings : RenderSettings} {v : Visit} {d : Draft}

/-- Nothing is written where there is no script. -/
theorem of_script_error {error : LayoutError}
    (h : v.script settings d.text.isEmpty = .error error) : Fares settings v d (some error) := by
  show v.write settings d.toWriter = .error error d.toWriter
  rw [write_toWriter, h]
  rfl

theorem of_visit {d' : Draft} (h : d.visit settings v = .ok d') : Fares settings v d none := by
  have hw := visit_toWriter settings v d
  rw [h] at hw
  exact ⟨d', hw⟩

/-- A script whose first step takes back a margin fails there or not at all. -/
theorem of_takeBack {margin : String} (owed : Owed)
    (h : v.script settings d.text.isEmpty = .ok [.pop (some margin), .owe owed]) :
    Fares settings v d (takeBackFault? d.segments margin) := by
  have hr := refusal_pop d margin
  cases hfault : takeBackFault? d.segments margin with
  | some error =>
    rw [hfault] at hr
    have hpop := act_toWriter (.pop (some margin)) d
    rw [hr] at hpop
    show v.write settings d.toWriter = .error error d.toWriter
    rw [write_toWriter, h]
    exact bind_of_error hpop
  | none =>
    rw [hfault] at hr
    have hd : d.visit settings v = .ok ((d.apply (.pop (some margin))).apply (.owe owed)) := by
      rw [visit, h]
      show d.perform [.pop (some margin), .owe owed] = _
      rw [perform, hr]
      rfl
    exact of_visit hd

end Fares

/-- An item has a layout exactly when it has no fault. -/
theorem slot_fault?_cases (markers : MarkerStyle) (slot : Slot) :
    (∃ item, slot.layout markers = .ok item ∧ slot.fault? markers = none) ∨
      ∃ error, slot.layout markers = .error error ∧ slot.fault? markers = some error := by
  cases hlayout : slot.layout markers with
  | ok item =>
    refine .inl ⟨item, rfl, ?_⟩
    cases slot with
    | stray => cases hlayout
    | bullet => rfl
    | numbered ordinal =>
      refine if_neg ?_
      rintro ⟨rfl, hn⟩
      simp [Slot.layout, hn] at hlayout
  | error error =>
    refine .inr ⟨error, rfl, ?_⟩
    rcases Slot.layout_eq_error_iff.mp hlayout with ⟨rfl, rfl⟩ | ⟨ordinal, rfl, hm, hn, rfl⟩
    · rfl
    · exact if_pos ⟨hm, hn⟩

theorem fares_enter (settings : RenderSettings) (container : Container) (slot : Slot) (d : Draft) :
    Fares settings ⟨.enter, .container container, slot⟩ d
      (Visit.fault? settings d.segments ⟨.enter, .container container, slot⟩) := by
  have hsettles := settles_enter settings ⟨none, 0, .container container⟩ rfl d
  cases container with
  | foreign kind => exact .of_script_error rfl
  | listItem =>
    rcases slot_fault?_cases settings.markers slot with ⟨item, hi, hfault⟩ | ⟨error, hi, hfault⟩
    · obtain ⟨d', hd, _⟩ := perform_enter item.marker item.margin d
      have hvisit : d.visit settings ⟨.enter, .container .listItem, slot⟩ = .ok d' := by
        rw [visit, Visit.script_enter_listItem hi]
        exact hd
      simp only [Visit.fault?, hfault]
      exact .of_visit hvisit
    · simp only [Visit.fault?, hfault]
      exact .of_script_error (Visit.script_listItem_error hi _ _)
  | document | blockQuote | list | heading | paragraph | strong | emphasis | link | image =>
    obtain ⟨d', hd, _⟩ := hsettles
    exact .of_visit hd

theorem fares_leave (settings : RenderSettings) {event : Event} (he : event ≠ .enter)
    (container : Container) (slot : Slot) (d : Draft) :
    Fares settings ⟨event, .container container, slot⟩ d
      (Visit.fault? settings d.segments ⟨event, .container container, slot⟩) := by
  obtain ⟨parent, position, rfl⟩ := slot.exists_site (.container container)
  generalize hsite : (⟨parent, position, .container container⟩ : Site) = site
  have helement : site.element = .container container := by rw [← hsite]
  have hleave : ∀ unwritten, Visit.script settings unwritten
      ⟨event, .container container, site.slot⟩ =
        container.leaveScript settings unwritten site.slot := by
    intro unwritten
    cases event with
    | enter => exact absurd rfl he
    | exit | done => rfl
  -- Where no margin is taken back, what an exit does is done in any margins.
  have hbare : site.defect? settings.markers = none →
      container.margins settings site.slot = [] →
      Visit.fault? settings d.segments ⟨event, .container container, site.slot⟩ = none →
      Fares settings ⟨event, .container container, site.slot⟩ d
        (Visit.fault? settings d.segments ⟨event, .container container, site.slot⟩) := by
    intro hdefect hmargins hfault
    have hsegments : d.segments = d.segments ++ container.margins settings site.slot := by
      rw [hmargins, List.append_nil]
    obtain ⟨d', hd, _⟩ := settles_leave settings site helement hdefect hsegments
    have hvisit : d.visit settings ⟨event, .container container, site.slot⟩ = .ok d' := by
      rw [visit, hleave]
      exact hd
    rw [hfault]
    exact .of_visit hvisit
  cases container with
  | foreign kind => exact .of_script_error (hleave _)
  | listItem =>
    rcases slot_fault?_cases settings.markers site.slot with
      ⟨item, hi, hnone⟩ | ⟨error, hi, hsome⟩
    · have hfault : Visit.fault? settings d.segments ⟨event, .container .listItem, site.slot⟩ =
          takeBackFault? d.segments item.margin := by
        simp [Visit.fault?, hnone, he, Container.margins, hi]
      rw [hfault]
      refine .of_takeBack .lineEnd ((hleave _).trans ?_)
      simp only [Container.leaveScript, hi]
    · simp only [Visit.fault?, hsome]
      exact .of_script_error (Visit.script_listItem_error hi _ _)
  | blockQuote =>
    have hfault : Visit.fault? settings d.segments ⟨event, .container .blockQuote, site.slot⟩ =
        takeBackFault? d.segments quoteMargin := by
      simp [Visit.fault?, he, Container.margins]
    rw [hfault]
    exact .of_takeBack .blankLine (hleave _)
  | document | list | heading | paragraph | strong | emphasis | link | image =>
    subst hsite
    exact hbare rfl rfl (by simp [Visit.fault?, Container.margins])

/-- A leaf is written in any margins, and leaves them as they are, unless its kind is unknown. -/
theorem write_leaf (settings : RenderSettings) (event : Event) (leaf : Leaf) (slot : Slot)
    (d : Draft) :
    (∃ kind, leaf = .foreign kind) ∨ ∃ d' : Draft,
      Visit.write settings ⟨event, .leaf leaf, slot⟩ d.toWriter = .ok () d'.toWriter ∧
        d'.segments = d.segments := by
  have hsettles := settles_leaf settings none 0 slot leaf d
  have hw := visit_toWriter settings ⟨.enter, .leaf leaf, slot⟩ d
  have hwrite : Visit.write settings ⟨event, .leaf leaf, slot⟩ =
      Visit.write settings ⟨.enter, .leaf leaf, slot⟩ := by cases event <;> rfl
  cases leaf with
  | foreign kind => exact .inl ⟨kind, rfl⟩
  | _ =>
    obtain ⟨d', hd, hs⟩ := hsettles
    rw [hd] at hw
    exact .inr ⟨d', hwrite ▸ hw, hs⟩

/-- What a visit does to a writer that stands for a draft. -/
theorem fares (settings : RenderSettings) (v : Visit) (d : Draft) :
    Fares settings v d (v.fault? settings d.segments) := by
  obtain ⟨event, element, slot⟩ := v
  cases element with
  | leaf leaf =>
    rcases write_leaf settings event leaf slot d with ⟨kind, rfl⟩ | ⟨d', hw, _⟩
    · refine .of_script_error ?_
      cases event <;> rfl
    · cases leaf with
      | foreign kind =>
        refine .of_script_error ?_
        cases event <;> rfl
      | _ => exact ⟨d', hw⟩
  | container container =>
    by_cases he : event = .enter
    · subst he
      exact fares_enter settings container slot d
    · exact fares_leave settings he container slot d

/-- A writer stands for a draft whatever visits it is taken through. -/
theorem exists_visitAll_eq (settings : RenderSettings) (visits : List Visit) (d : Draft) :
    ∃ d' : Draft, d.toWriter.visitAll settings visits = d'.toWriter := by
  induction visits generalizing d with
  | nil => exact ⟨d, rfl⟩
  | cons v visits ih =>
    have hfares := d.fares settings v
    show ∃ d' : Draft, (d.toWriter.leftBy (v.write settings)).visitAll settings visits = d'.toWriter
    unfold Writer.leftBy
    cases hfault : v.fault? settings d.segments with
    | some error =>
      rw [hfault] at hfares
      have hw : v.write settings d.toWriter = .error error d.toWriter := hfares
      rw [hw]
      exact ih d
    | none =>
      rw [hfault] at hfares
      obtain ⟨mid, hw⟩ := hfares
      rw [hw]
      exact ih mid

end Draft

/-- Whatever visits a new writer has been taken through, in whatever order and with whatever
failures: the next visit fails exactly for the reasons of `Visit.fault?`, and then the writer is as
it was. A leaf fails only if its kind is unknown, and leaves the margins as they were. -/
theorem write_eq_error_iff (settings : RenderSettings) (width : Int) (before : List Visit)
    (v : Visit) :
    ∃ w, ({ width } : Writer).visitAll settings before = w ∧
      (∀ error w', v.write settings w = .error error w' ↔
        v.fault? settings w.segments = some error ∧ w' = w) ∧
      ∀ leaf, v.element = .leaf leaf →
        (∃ kind, leaf = .foreign kind ∧ v.write settings w = .error (.unknownKind kind) w) ∨
          ∃ w', v.write settings w = .ok () w' ∧ w'.segments = w.segments ∧
            w'.margin = w.margin := by
  obtain ⟨d, hd⟩ := Draft.exists_visitAll_eq settings before { width }
  have hfares := d.fares settings v
  refine ⟨d.toWriter, hd, ?_, ?_⟩
  · intro error w'
    show v.write settings d.toWriter = .error error w' ↔
      v.fault? settings d.segments = some error ∧ w' = d.toWriter
    cases hfault : v.fault? settings d.segments with
    | some cause =>
      rw [hfault] at hfares
      have hw : v.write settings d.toWriter = .error cause d.toWriter := hfares
      rw [hw]
      constructor
      · intro h
        cases h
        exact ⟨rfl, rfl⟩
      · rintro ⟨he, rfl⟩
        rw [Option.some.inj he]
    | none =>
      rw [hfault] at hfares
      obtain ⟨d', hw⟩ := hfares
      rw [hw]
      constructor
      · intro h
        cases h
      · rintro ⟨he, _⟩
        cases he
  · intro leaf hleaf
    obtain ⟨event, element, slot⟩ := v
    dsimp only at hleaf
    subst hleaf
    rcases d.write_leaf settings event leaf slot with ⟨kind, rfl⟩ | ⟨d', hw, hs⟩
    · exact .inl ⟨kind, rfl, hfares⟩
    · refine .inr ⟨d'.toWriter, hw, hs, ?_⟩
      show (Text.Utf8.encode d'.margin).toArray = (Text.Utf8.encode d.margin).toArray
      rw [Draft.margin, hs]
      rfl

/-- A quotation cannot be left from within an item. -/
example : Visit.fault? {} ["> ", "  "] ⟨.exit, .container .blockQuote, .stray⟩ =
    some (.marginMismatch "> " "  " 2) := by decide

end MarkdownLayout
