import MarkdownLayout.Proofs.Draft.Script

/-!
# Shells

A shell is a container that puts a mark in front of its first line and a margin in front of the
others: a quotation, or a list with one item. Nodes in shells nested to any depth are laid out like
the bare nodes, once the marks are written on one line and the margins are put down, and what is
left behind has no margins. The main statement is `draftOfVisits_nest`; where the number of a shell
cannot be written there is no layout at all, which is `draftOfVisits_nest_error`.
-/

namespace MarkdownLayout

/-- A number begins with a digit or a sign and is written on one line. -/
theorem exists_toString_cons (n : Int) :
    (∃ c cs, (toString n).toList = c :: cs ∧ c ≠ ' ' ∧ c ≠ '\n') ∧ '\n' ∉ (toString n).toList := by
  have hdigit : ∀ (m : Nat), ∀ c ∈ Nat.toDigits 10 m, c ≠ ' ' ∧ c ≠ '\n' := by
    intro m c hc
    have hd := Nat.isDigit_of_mem_toDigits (by decide) (by decide) hc
    refine ⟨?_, ?_⟩ <;>
    · rintro rfl
      exact absurd hd (by decide)
  have hnewline : ∀ m : Nat, '\n' ∉ Nat.toDigits 10 m := fun m hm => (hdigit m _ hm).2 rfl
  rw [Int.toString_eq_repr, Int.repr_eq_if]
  split
  · obtain ⟨c, cs, hcs⟩ :=
      List.exists_cons_of_ne_nil (Nat.toDigits_ne_nil : Nat.toDigits 10 n.toNat ≠ [])
    refine ⟨⟨c, cs, by simpa using hcs, hdigit n.toNat c ?_⟩, by simp [hnewline]⟩
    rw [hcs]
    exact List.mem_cons_self
  · exact ⟨⟨'-', (-n).toNat.repr.toList, by simp, by decide, by decide⟩, by simp [hnewline]⟩

/-- A layout that items and quotations can have: a mark on one line and a margin of the same
width, both with a blank at the end. -/
structure ItemLayout.Proper (item : ItemLayout) : Prop where
  /-- The mark begins with a digit or a sign. -/
  marked : ∃ c cs, item.marker.toList = c :: cs ∧ c ≠ ' ' ∧ c ≠ '\n'
  /-- The mark is on one line. -/
  unbroken : '\n' ∉ item.marker.toList
  /-- The mark is as wide as the margin. -/
  length_eq : item.marker.toList.length = item.margin.toList.length
  /-- The mark ends with a blank. -/
  last_marker : item.marker.toList.getLast? = some ' '
  /-- The margin ends with a blank. -/
  last_margin : item.margin.toList.getLast? = some ' '
  /-- The margin holds nothing but blanks and the sign of a quotation. -/
  margin : ∀ c ∈ item.margin.toList, c = '>' ∨ c = ' '

namespace ItemLayout

theorem Proper.marker_ne_nil {item : ItemLayout} (h : item.Proper) : item.marker.toList ≠ [] := by
  obtain ⟨c, cs, hcs, _⟩ := h.marked
  rw [hcs]
  exact List.cons_ne_nil c cs

theorem Proper.newline_notMem_margin {item : ItemLayout} (h : item.Proper) :
    '\n' ∉ item.margin.toList := by
  intro hn
  rcases h.margin _ hn with he | he <;> exact absurd he (by decide)

/-- The layout of a number is one that items can have. -/
theorem proper_ofNumeral (n : Int) : (ofNumeral (toString n)).Proper := by
  obtain ⟨⟨c, cs, hcs, hblank, hnewline⟩, hunbroken⟩ := exists_toString_cons n
  generalize hnumber : toString n ++ "." = number
  have hlayout : ofNumeral (toString n) =
      ⟨number ++ blanks (max 4 (number.length + 1) - number.length),
        blanks (max 4 (number.length + 1))⟩ := by
    rw [← hnumber]
    rfl
  have hchars : number.toList = c :: (cs ++ ['.']) := by
    rw [← hnumber, String.toList_append, hcs]
    rfl
  have hnot : '\n' ∉ number.toList := by
    rw [← hnumber, String.toList_append, List.mem_append, not_or]
    exact ⟨hunbroken, by decide⟩
  obtain ⟨gap, hgap⟩ : ∃ gap, max 4 (number.length + 1) = number.length + (gap + 1) :=
    ⟨max 4 (number.length + 1) - number.length - 1, by omega⟩
  have hlength : number.toList.length = number.length := String.length_toList
  rw [hlayout, hgap, Nat.add_sub_cancel_left]
  refine ⟨⟨c, cs ++ ['.'] ++ List.replicate (gap + 1) ' ', ?_, hblank, hnewline⟩, ?_, ?_, ?_,
    ?_, ?_⟩
  · simp [blanks, hchars]
  · simp [blanks, hnot]
  · simp [blanks, hlength]
  · simp [blanks, List.getLast?_append, List.getLast?_replicate]
  · simp [blanks, List.getLast?_replicate]
  · simp [blanks]

/-- So are those of a hyphen and of the number one. -/
theorem proper_bullet : (⟨"- ", "  "⟩ : ItemLayout).Proper :=
  ⟨⟨'-', [' '], rfl, by decide, by decide⟩, by decide, rfl, rfl, rfl, by simp⟩

theorem proper_fixed : (⟨"1.  ", "    "⟩ : ItemLayout).Proper :=
  ⟨⟨'1', ['.', ' ', ' '], rfl, by decide, by decide⟩, by decide, rfl, rfl, rfl, by simp⟩

/-- The mark of a quotation is its margin. -/
theorem proper_quote : (⟨quoteMargin, quoteMargin⟩ : ItemLayout).Proper :=
  ⟨⟨'>', [' '], rfl, by decide, by decide⟩, by decide, rfl, rfl, rfl, by simp [quoteMargin]⟩

/-- Marks, one after the other. -/
def marks (items : List ItemLayout) : List Char :=
  items.flatMap fun item => item.marker.toList

/-- Margins, one after the other. -/
def margins (items : List ItemLayout) : List Char :=
  items.flatMap fun item => item.margin.toList

end ItemLayout

/-- An item has a layout that items can have. -/
theorem Slot.proper_layout {markers : MarkerStyle} {slot : Slot} {item : ItemLayout}
    (h : slot.layout markers = .ok item) : item.Proper := by
  obtain rfl | rfl | ⟨ordinal, numeral, _, hnumeral, rfl⟩ := Slot.layout_eq_ok h
  · exact ItemLayout.proper_bullet
  · exact ItemLayout.proper_fixed
  · rw [← (Text.numeral?_eq_some_iff.mp hnumeral).2]
    exact ItemLayout.proper_ofNumeral ordinal

/-- A container that sets off what stands in it. -/
inductive Shell where
  /-- A quotation. -/
  | quote
  /-- A list with one item, numbered from `start` when it is ordered. -/
  | item (ordered : Bool) (start : Int)
  deriving DecidableEq, Repr

namespace Shell

/-- Nodes in a shell. -/
def wrap (nodes : List Node) : Shell → Node
  | .quote => .branch .blockQuote nodes
  | .item ordered start => .branch (.list ordered start) [.branch .listItem nodes]

/-- Nodes in shells, the outermost first. -/
def nest (nodes : List Node) : List Shell → List Node
  | [] => nodes
  | shell :: shells => [shell.wrap (nest nodes shells)]

/-- The mark and the margin of a shell, unless it has a number that cannot be written. -/
def layout (markers : MarkerStyle) : Shell → Except LayoutError ItemLayout
  | .quote => .ok ⟨quoteMargin, quoteMargin⟩
  | .item false _ => .ok ⟨"- ", "  "⟩
  | .item true start =>
    match markers with
    | .fixed => .ok ⟨"1.  ", "    "⟩
    | .sequential =>
      match Text.numeral? start with
      | none => .error .longNumeral
      | some numeral => .ok (.ofNumeral numeral)

/-- The marks and the margins of shells, the outermost first. -/
def layouts (markers : MarkerStyle) : List Shell → Except LayoutError (List ItemLayout)
  | [] => .ok []
  | shell :: shells =>
    (shell.layout markers).bind fun first => (layouts markers shells).map (first :: ·)

/-- The item of a shell has the layout of the shell. -/
theorem layout_slot (markers : MarkerStyle) (ordered : Bool) (start : Int) :
    ((Container.list ordered start).slot 0).layout markers =
      (Shell.item ordered start).layout markers := by
  cases ordered with
  | false => rfl
  | true =>
    cases markers with
    | fixed => rfl
    | sequential =>
      have hslot : (Container.list true start).slot 0 = .numbered start :=
        congrArg Slot.numbered (Int.add_zero start)
      rw [hslot]
      cases hnumeral : Text.numeral? start <;> simp only [Slot.layout, layout, hnumeral]

/-- A shell has a layout that items and quotations can have. -/
theorem proper_layout {markers : MarkerStyle} {shell : Shell} {item : ItemLayout}
    (h : shell.layout markers = .ok item) : item.Proper := by
  cases shell with
  | quote =>
    cases h
    exact ItemLayout.proper_quote
  | item ordered start => exact Slot.proper_layout ((layout_slot markers ordered start).trans h)

/-- Only a number that cannot be written keeps a shell from having a layout. -/
theorem layout_eq_error_iff {markers : MarkerStyle} {shell : Shell} {e : LayoutError} :
    shell.layout markers = .error e ↔
      e = .longNumeral ∧ markers = .sequential ∧
        ∃ start, shell = .item true start ∧ Text.numeral? start = none := by
  cases shell with
  | quote => simp [layout]
  | item ordered start =>
    rw [← layout_slot, Slot.layout_eq_error_iff]
    cases ordered with
    | false => simp [Container.slot]
    | true =>
      simp only [Container.slot, Int.natCast_zero, Int.add_zero]
      grind

theorem layouts_cons_eq_ok {markers : MarkerStyle} {shell : Shell} {shells : List Shell}
    {items : List ItemLayout} (h : layouts markers (shell :: shells) = .ok items) :
    ∃ item rest, shell.layout markers = .ok item ∧ layouts markers shells = .ok rest ∧
      items = item :: rest := by
  rw [layouts] at h
  cases hitem : shell.layout markers with
  | error e =>
    rw [hitem] at h
    cases h
  | ok item =>
    cases hrest : layouts markers shells with
    | error e =>
      rw [hitem, hrest] at h
      cases h
    | ok rest =>
      rw [hitem, hrest] at h
      cases h
      exact ⟨item, rest, rfl, rfl, rfl⟩

theorem layouts_cons_eq_error {markers : MarkerStyle} {shell : Shell} {shells : List Shell}
    {e : LayoutError} :
    layouts markers (shell :: shells) = .error e ↔
      shell.layout markers = .error e ∨
        (∃ item, shell.layout markers = .ok item) ∧ layouts markers shells = .error e := by
  rw [layouts]
  cases shell.layout markers with
  | error e' =>
    show (Except.error e' : Except LayoutError (List ItemLayout)) = .error e ↔ _
    simp
  | ok first =>
    cases layouts markers shells with
    | error e' =>
      show (Except.error e' : Except LayoutError (List ItemLayout)) = .error e ↔ _
      simp
    | ok rest =>
      show Except.ok (first :: rest) = .error e ↔ _
      simp

/-- The layouts of shells are such layouts. -/
theorem proper_of_mem_layouts {markers : MarkerStyle} {shells : List Shell}
    {items : List ItemLayout} (h : layouts markers shells = .ok items) :
    ∀ item ∈ items, item.Proper := by
  induction shells generalizing items with
  | nil =>
    cases h
    exact List.forall_mem_nil _
  | cons shell shells ih =>
    obtain ⟨item, rest, hitem, hrest, rfl⟩ := layouts_cons_eq_ok h
    exact List.forall_mem_cons.mpr ⟨proper_layout hitem, ih hrest⟩

/-- Shells have layouts unless one of them has a number that cannot be written. -/
theorem layouts_eq_error_iff {markers : MarkerStyle} {shells : List Shell} {e : LayoutError} :
    layouts markers shells = .error e ↔
      e = .longNumeral ∧ markers = .sequential ∧
        ∃ start, Shell.item true start ∈ shells ∧ Text.numeral? start = none := by
  induction shells with
  | nil => simp [layouts]
  | cons shell shells ih =>
    rw [layouts_cons_eq_error, ih, layout_eq_error_iff]
    constructor
    · rintro (⟨he, hm, start, rfl, hn⟩ | ⟨_, he, hm, start, hs, hn⟩)
      · exact ⟨he, hm, start, List.mem_cons_self, hn⟩
      · exact ⟨he, hm, start, List.mem_cons_of_mem _ hs, hn⟩
    · rintro ⟨he, hm, start, hs, hn⟩
      cases hshell : shell.layout markers with
      | error e' =>
        obtain ⟨_, _, first, hfirst, hlong⟩ := layout_eq_error_iff.mp hshell
        exact .inl ⟨he, hm, first, hfirst, hlong⟩
      | ok item =>
        rcases List.mem_cons.mp hs with rfl | hs
        · have hbad := layout_eq_error_iff.mpr ⟨he, hm, start, rfl, hn⟩
          rw [hshell] at hbad
          cases hbad
        · exact .inr ⟨⟨item, rfl⟩, he, hm, start, hs, hn⟩

theorem layouts_eq_nil_iff {markers : MarkerStyle} {shells : List Shell} {items : List ItemLayout}
    (h : layouts markers shells = .ok items) : items = [] ↔ shells = [] := by
  cases shells with
  | nil =>
    cases h
    simp
  | cons shell shells =>
    obtain ⟨item, rest, _, _, rfl⟩ := layouts_cons_eq_ok h
    simp

end Shell

namespace Draft

/-- Write marks and put down their margins. -/
def enter (items : List ItemLayout) (d : Draft) : Draft :=
  items.foldl (fun d item => (d.emit .verbatim item.marker).pushMargin item.margin) d

/-- Markup on a line without a break point. -/
theorem putAll_verbatim {d : Draft} (hf : d.line ≠ .fresh)
    (hl : ∀ tail escapes, d.line ≠ .loose tail escapes) {cs : List Char} (hcs : cs ≠ [])
    (hn : '\n' ∉ cs) : d.putAll .verbatim cs = d.append false cs := by
  induction cs generalizing d with
  | nil => exact absurd rfl hcs
  | cons c rest ih =>
    have hc : c ≠ '\n' := fun he => hn (he ▸ List.mem_cons_self)
    have hsolid := line_append_of_not_loose hl false [c]
    have hput : d.put .verbatim c rest.head? = d.append false [c] := by
      rw [put, openLine_of_ne_fresh hf]
      unfold place
      rw [if_neg (by simp [Policy.verbatim]), if_neg hc]
      exact settle_of_solid hsolid
    rw [putAll, hput]
    cases rest with
    | nil => rfl
    | cons e rest =>
      rw [ih (by simp [hsolid]) (by simp [hsolid]) (List.cons_ne_nil e rest)
        fun hm => hn (List.mem_cons_of_mem c hm)]
      exact append_append false (List.cons_ne_nil c []) (e :: rest) d

theorem emit_verbatim_of_solid {d : Draft} (hl : d.line = .solid) (ho : d.owed = .nothing)
    {span : String} (hne : span.toList ≠ []) (hn : '\n' ∉ span.toList) :
    d.emit .verbatim span = d.append false span.toList := by
  have hflush : d.flush = d := if_pos ho
  show d.flush.putAll .verbatim span.toList = _
  rw [hflush]
  exact putAll_verbatim (by simp [hl]) (by simp [hl]) hne hn

/-- Marks on a line that has begun follow one another. -/
theorem enter_of_solid {items : List ItemLayout} (h : ∀ item ∈ items, item.Proper) {d : Draft}
    (hl : d.line = .solid) (ho : d.owed = .nothing) :
    d.enter items =
      { d with
        head := d.head ++ Glyph.plain (ItemLayout.marks items)
        segments := d.segments ++ items.map ItemLayout.margin
        column := d.column + (ItemLayout.marks items).length } := by
  induction items generalizing d with
  | nil => simp [enter, ItemLayout.marks]
  | cons item items ih =>
    obtain ⟨hitem, hitems⟩ := List.forall_mem_cons.mp h
    have hemit := emit_verbatim_of_solid hl ho hitem.marker_ne_nil hitem.unbroken
    obtain ⟨width, head, line, segments, column, owed, keepsLines⟩ := d
    dsimp only at hl ho
    subst hl ho
    show Draft.enter items (Draft.pushMargin _ _) = _
    rw [hemit, ih hitems rfl rfl]
    simp [append, pushMargin, ItemLayout.marks]
    omega

/-- The marks of a text stand in front of it. -/
theorem enter_initial (width : Int) {items : List ItemLayout} (h : ∀ item ∈ items, item.Proper)
    (hne : items ≠ []) :
    ({ width } : Draft).enter items =
      { width
        head := Glyph.plain (ItemLayout.marks items)
        line := .solid
        segments := items.map ItemLayout.margin
        column := (ItemLayout.marks items).length } := by
  obtain ⟨item, items, rfl⟩ := List.exists_cons_of_ne_nil hne
  obtain ⟨hitem, hitems⟩ := List.forall_mem_cons.mp h
  have hemit : ({ width } : Draft).emit .verbatim item.marker =
      ({ width } : Draft).openLine.append false item.marker.toList := by
    show ({ width } : Draft).putAll .verbatim item.marker.toList = _
    rw [← putAll_openLine hitem.marker_ne_nil, putAll_verbatim (openLine_line_ne_fresh _)
      (by simp [openLine]) hitem.marker_ne_nil hitem.unbroken]
  show Draft.enter items (Draft.pushMargin _ _) = _
  rw [hemit, enter_of_solid hitems rfl rfl]
  simp [append, openLine, pushMargin, margin, indent, ItemLayout.marks]

end Draft

/-- The exit from a shell takes back its margin and owes no more than a blank line. -/
theorem Draft.perform_leave {d : Draft} {segments : List String} {segment : String}
    (hs : d.segments = segments ++ [segment]) (ho : d.owed = .blankLine) (owed : Owed) :
    d.perform [.pop (some segment), .owe owed] = .ok { d with segments } := by
  have hr : d.refusal (.pop (some segment)) = none := by simp [Draft.refusal, hs]
  have ha : d.apply (.pop (some segment)) = { d with segments } := by
    simp [Draft.apply, hr, Draft.dropMargin, hs]
  have howe : ({ d with segments } : Draft).apply (.owe owed) = { d with segments } := by
    obtain ⟨width, head, line, segments, column, owed', keepsLines⟩ := d
    dsimp only at ho
    subst ho
    cases owed <;> rfl
  rw [Draft.perform, hr, ha]
  show Except.ok (({ d with segments } : Draft).apply (.owe owed)) = _
  rw [howe]

/-- The visits of what stands in a quotation. -/
theorem Shell.visits_quote (nodes : List Node) (container : Container) (position : Nat) :
    Node.visitsUnder container position [Shell.quote.wrap nodes] =
      ⟨.enter, .container .blockQuote, container.slot position⟩ ::
        (Node.visitsUnder .blockQuote 0 nodes ++
          [⟨.exit, .container .blockQuote, container.slot position⟩]) := by
  simp [Shell.wrap, Node.visitsUnder, Node.visitsIn]

/-- The visits of what stands in the one item of a list. -/
theorem Shell.visits_item (nodes : List Node) (ordered : Bool) (start : Int) (container : Container)
    (position : Nat) :
    Node.visitsUnder container position [(Shell.item ordered start).wrap nodes] =
      ⟨.enter, .container (.list ordered start), container.slot position⟩ ::
        ⟨.enter, .container .listItem, (Container.list ordered start).slot 0⟩ ::
          (Node.visitsUnder .listItem 0 nodes ++
            [⟨.exit, .container .listItem, (Container.list ordered start).slot 0⟩,
              ⟨.exit, .container (.list ordered start), container.slot position⟩]) := by
  simp [Shell.wrap, Node.visitsUnder, Node.visitsIn]

/-- What stands in a shell is laid out behind its mark and within its margin. -/
theorem draftOfVisits_wrap {settings : RenderSettings} {nodes : List Node} {d mid : Draft}
    {shell : Shell} {item : ItemLayout} (hitem : shell.layout settings.markers = .ok item)
    (hmid : ∀ container, draftOfVisits settings (Node.visitsUnder container 0 nodes)
      ((d.emit .verbatim item.marker).pushMargin item.margin) = .ok mid)
    (hs : mid.segments = d.segments ++ [item.margin])
    (ho : mid.owed = .blankLine) (container : Container) (position : Nat) :
    draftOfVisits settings (Node.visitsUnder container position [shell.wrap nodes]) d =
      .ok { mid with segments := d.segments } := by
  cases shell with
  | quote =>
    cases hitem
    have hexit : mid.visit settings ⟨.exit, .container .blockQuote, container.slot position⟩ =
        .ok { mid with segments := d.segments } := Draft.perform_leave hs ho .blankLine
    rw [Shell.visits_quote]
    show draftOfVisits settings (_ ++ _)
      ((d.emit .verbatim quoteMargin).pushMargin quoteMargin) = _
    rw [draftOfVisits_append, hmid .blockQuote]
    show draftOfVisits settings [_] mid = _
    rw [draftOfVisits_cons, hexit]
    rfl
  | item ordered start =>
    have hlayout := (Shell.layout_slot settings.markers ordered start).trans hitem
    have henter : d.visit settings
        ⟨.enter, .container .listItem, (Container.list ordered start).slot 0⟩ =
          .ok ((d.emit .verbatim item.marker).pushMargin item.margin) := by
      rw [Draft.visit, Visit.script_enter_listItem hlayout]
      rfl
    have hexit : mid.visit settings
        ⟨.exit, .container .listItem, (Container.list ordered start).slot 0⟩ =
          .ok { mid with segments := d.segments } := by
      rw [Draft.visit, Visit.script_exit_listItem hlayout]
      exact Draft.perform_leave hs ho .lineEnd
    rw [Shell.visits_item]
    show draftOfVisits settings (_ :: (_ ++ _)) d = _
    rw [draftOfVisits_cons, henter]
    show draftOfVisits settings (_ ++ _) _ = _
    rw [draftOfVisits_append, hmid .listItem]
    show draftOfVisits settings [_, _] mid = _
    rw [draftOfVisits_cons, hexit]
    rfl

/-- What stands in shells is laid out behind their marks and within their margins. -/
theorem draftOfVisits_nest {settings : RenderSettings} {nodes : List Node} {write : Draft → Draft}
    (hwrite : ∀ container position d,
      draftOfVisits settings (Node.visitsUnder container position nodes) d = .ok (write d))
    (hsegments : ∀ d, (write d).segments = d.segments) (howed : ∀ d, (write d).owed = .blankLine)
    {shells : List Shell} {items : List ItemLayout}
    (hitems : Shell.layouts settings.markers shells = .ok items)
    (container : Container) (position : Nat) (d : Draft) :
    draftOfVisits settings (Node.visitsUnder container position (Shell.nest nodes shells)) d =
      .ok { write (d.enter items) with segments := d.segments } := by
  induction shells generalizing items container position d with
  | nil =>
    cases hitems
    rw [Shell.nest, hwrite]
    show _ = Except.ok { write d with segments := d.segments }
    rw [← hsegments d]
  | cons shell shells ih =>
    obtain ⟨item, rest, hitem, hrest, rfl⟩ := Shell.layouts_cons_eq_ok hitems
    have hmid := fun container =>
      ih hrest container 0 ((d.emit .verbatim item.marker).pushMargin item.margin)
    have hs : ((d.emit .verbatim item.marker).pushMargin item.margin).segments =
        d.segments ++ [item.margin] := by
      simp [Draft.pushMargin]
    exact draftOfVisits_wrap hitem hmid hs (howed _) container position

/-- Where the number of a shell cannot be written, nothing in the shells is laid out. -/
theorem draftOfVisits_nest_error {settings : RenderSettings} {shells : List Shell} {e : LayoutError}
    (h : Shell.layouts settings.markers shells = .error e) (nodes : List Node)
    (container : Container) (position : Nat) (d : Draft) :
    draftOfVisits settings (Node.visitsUnder container position (Shell.nest nodes shells)) d =
      .error e := by
  induction shells generalizing container position d with
  | nil => cases h
  | cons shell shells ih =>
    rw [Shell.nest]
    cases shell with
    | quote =>
      have hrest := ((Shell.layouts_cons_eq_error.mp h).resolve_left nofun).2
      rw [Shell.visits_quote]
      show draftOfVisits settings (_ ++ _)
        ((d.emit .verbatim quoteMargin).pushMargin quoteMargin) = _
      rw [draftOfVisits_append, ih hrest]
      rfl
    | item ordered start =>
      rw [Shell.visits_item]
      show draftOfVisits settings (_ :: (_ ++ _)) d = _
      rw [draftOfVisits_cons, Draft.visit]
      rcases Shell.layouts_cons_eq_error.mp h with hbad | ⟨⟨item, hitem⟩, hrest⟩
      · rw [Visit.script_listItem_error ((Shell.layout_slot _ ordered start).trans hbad)]
        rfl
      · rw [Visit.script_enter_listItem ((Shell.layout_slot _ ordered start).trans hitem)]
        show draftOfVisits settings (_ ++ _)
          ((d.emit .verbatim item.marker).pushMargin item.margin) = _
        rw [draftOfVisits_append, ih hrest]
        rfl

end MarkdownLayout
