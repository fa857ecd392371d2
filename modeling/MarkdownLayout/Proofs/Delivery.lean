import MarkdownLayout.Proofs.CommandWords
import MarkdownLayout.Proofs.Targets
import MarkdownLayout.Proofs.TokenTrees

/-!
# One document by every way

A document can be had as a text, written to a target, or asked for on the command line, and its tree
can be laid out and written to a target. On each way it is encoded and decoded another number of
times, and turned into characters or octets by another rule. All of them deliver the octets of its
layout, and where it has none, because an item would have to show a number with too many digits, all
of them fail alike. The main statement is `octets_delivered`.
-/

namespace MarkdownLayout

/-- The choices of the layout with the width that goes before. -/
def ReformatSettings.chosen (settings : ReformatSettings) : RenderSettings :=
  { settings.render with width := (settings.width.map Int.toNat).getD settings.render.width }

/-- A width that is not below zero can be chosen. -/
theorem ReformatSettings.effective_eq {settings : ReformatSettings}
    (h : ∀ width ∈ settings.width, 0 ≤ width) : settings.effective = .ok settings.chosen := by
  unfold effective chosen
  cases hwidth : settings.width with
  | none => rfl
  | some width =>
    have hnot : ¬ width < 0 := by
      have hwidth := h width hwidth
      omega
    have hmarkers : (Datum.text settings.render.markers.name).text?.bind MarkerStyle.ofName? =
        some settings.render.markers := MarkerStyle.ofName?_name _
    show (RenderSettings.check width (.text settings.render.markers.name)
      settings.render.escapeFencedCode
      settings.render.flags).mapError SettingsError.failure = _
    rw [RenderSettings.check, if_neg hnot, hmarkers]
    rfl

/-- The number that is carried has no effect. -/
theorem Node.renderOctets_flags (settings : RenderSettings) (flags : Int) (root : Node) :
    root.renderOctets { settings with flags } = root.renderOctets settings := by
  have hwrite : Visit.write { settings with flags } = Visit.write settings := by
    funext visit
    obtain ⟨event, element, slot⟩ := visit
    cases element with
    | leaf leaf => cases leaf <;> rfl
    | container container => cases event <;> cases container <;> rfl
  unfold Node.renderOctets octetsOfVisits layout
  rw [hwrite]
  rfl

/-- A layout that has a text has the octets of the text. -/
theorem Node.renderOctets_of_render {settings : RenderSettings} {root : Node} {text : String}
    (h : root.render settings = .ok text) :
    root.renderOctets settings = .ok (Text.Utf8.octets text) := by
  obtain ⟨d, hdraft, hsegments, htext⟩ := Node.render_eq_ok_iff.mp h
  rw [Node.renderOctets_eq, hdraft]
  show d.detach.map Text.Utf8.encode = _
  rw [Draft.detach, hsegments, htext]
  rfl

/-- A document that is read can be laid out, unless an item would have to show a number with too
many digits. -/
theorem renderOctets_of_treeOf {host : Host} {parse : ParseSettings} {content : String}
    {root : Node} (htree : treeOf host parse content = .ok root) (settings : RenderSettings) :
    (∃ text, root.renderOctets settings = .ok (Text.Utf8.octets text)) ∨
      root.renderOctets settings = .error .longNumeral ∧
        ∃ site ∈ root.sites none 0, site.isOverlong settings.markers := by
  unfold treeOf at htree
  obtain ⟨_, _, htree⟩ := exists_of_bind_eq_ok htree
  obtain ⟨tokens, _, htree⟩ := exists_of_bind_eq_ok htree
  rcases Node.ofTokens_yields parse tokens #[] with
    ⟨error, notes, hresult, _⟩ | ⟨made, notes, hresult, _, _, _, horderly⟩
  · rw [hresult] at htree
    cases htree
  · rw [hresult] at htree
    cases htree
    by_cases hlong : ∃ site ∈ root.sites none 0, site.isOverlong settings.markers
    · refine .inr ⟨?_, hlong⟩
      rw [Node.renderOctets_eq, horderly.draft_eq_error hlong]
      rfl
    · obtain ⟨text, htext⟩ := (horderly.render settings).2 fun site hm =>
        Bool.eq_false_iff.mpr fun hsite => hlong ⟨site, hm, hsite⟩
      exact .inl ⟨text, Node.renderOctets_of_render htext⟩

/-- A step writes octets to a target that can be written to and has been opened. The target can be
written to again then. -/
def Run.Delivers (step : Run Receipt) (target : Target) (octets : List UInt8) : Prop :=
  ∀ s : Session, target.Ready s → ∃ receipt s',
    (Run.onDisk target.open >>= fun _ => step) s = .ok receipt s' ∧ target.Ready s' ∧
      target.received receipt s'.disk = some octets

namespace Run

variable {target : Target} {octets : List UInt8}

/-- The octets that a step tells are written to a target. -/
theorem Tells.delivers {step : Run (List UInt8)} {text : String}
    (h : step.Tells (.ok (Text.Utf8.octets text))) (target : Target) :
    (step >>= fun octets => onDisk (target.deliver (.octets octets))).Delivers target
      (Text.Utf8.octets text) := by
  intro s hready
  obtain ⟨opened, hopen, hready⟩ := Target.exists_open hready
  obtain ⟨told, hnoted, hstep⟩ := h opened
  obtain ⟨receipt, s', hdeliver, hready, hreceived⟩ :=
    Target.exists_deliver (hready.of_noted hnoted) text
  refine ⟨receipt, s', ?_, hready, hreceived⟩
  rw [bind_of_ok hopen, bind_of_ok hstep, hdeliver]

/-- It may be noted how long a step took that writes to a target. -/
theorem Delivers.timed {step : Run Receipt} (h : step.Delivers target octets) (host : Host)
    (logger operation : String) : (timed host logger operation step).Delivers target octets := by
  intro s hready
  obtain ⟨opened, hopen, _⟩ := Target.exists_open hready
  obtain ⟨receipt, s', hstep, hready', hreceived⟩ := h s hready
  have hnoted := Session.noted_finished host logger operation s'
  rw [bind_of_ok hopen] at hstep
  refine ⟨receipt, s'.finished host logger operation, ?_, hready'.of_noted hnoted, ?_⟩
  · rw [bind_of_ok hopen, Run.timed, bind_of_ok hstep]
    rfl
  · rw [Target.received_of_noted hready' hnoted, hreceived]

end Run

section Documents

variable {host : Host} {settings : ReformatSettings} {content text : String}

/-- A document is returned as the text of its octets. -/
theorem tells_reformat (heffective : settings.effective = .ok settings.chosen)
    (hoctets : octetsOf host settings.chosen settings.parse content = .ok (Text.Utf8.octets text)) :
    (reformat host settings (.octets (Text.Utf8.octets content))).Tells (.ok text) := by
  have hdecoded : decodeText (Text.Utf8.octets text) = .ok text := by
    rw [decodeText, Text.Utf8.text_octets]
  have hdone :=
    ((tells_reformatOctets host settings.chosen settings.parse content).bind fun octets =>
    Run.tells_ofExcept (decodeText octets)).timed host reformatLogger "Reformat"
  rw [hoctets, show Except.bind (.ok _) decodeText = _ from hdecoded] at hdone
  unfold reformat
  rw [heffective]
  exact hdone

/-- A document is written to a target. -/
theorem delivers_reformatTo (heffective : settings.effective = .ok settings.chosen)
    (hoctets : octetsOf host settings.chosen settings.parse content = .ok (Text.Utf8.octets text))
    (target : Target) :
    (reformatTo host settings (.octets (Text.Utf8.octets content)) target).Delivers target
      (Text.Utf8.octets text) := by
  have htells := tells_reformatOctets host settings.chosen settings.parse content
  rw [hoctets] at htells
  unfold reformatTo
  rw [heffective]
  exact (htells.delivers target).timed host reformatLogger "Reformat"

/-- A tree is laid out and written to a target. -/
theorem delivers_renderTo {render : RenderSettings} {root : Node}
    (hoctets : root.renderOctets render = .ok (Text.Utf8.octets text)) (target : Target) :
    (renderTo host render root target).Delivers target (Text.Utf8.octets text) := by
  have htells := tells_renderTree host render root
  rw [hoctets] at htells
  exact Run.Tells.delivers htells target

/-- Where a document has no octets, all ways to have it fail with the same error. -/
theorem tells_error {render : RenderSettings} {root : Node} {e : Failure}
    (heffective : settings.effective = .ok settings.chosen)
    (hoctets : octetsOf host settings.chosen settings.parse content = .error e)
    (hroot : (root.renderOctets render).mapError LayoutError.failure = .error e) :
    (reformat host settings (.octets (Text.Utf8.octets content))).Tells (.error e) ∧
      ∀ target,
        (reformatTo host settings (.octets (Text.Utf8.octets content)) target).Tells (.error e) ∧
        (renderTo host render root target).Tells (.error e) := by
  have htells := tells_reformatOctets host settings.chosen settings.parse content
  have hlaid := tells_renderTree host render root
  rw [hoctets] at htells
  rw [hroot] at hlaid
  unfold reformat reformatTo
  rw [heffective]
  exact ⟨(htells.fails _).timed host reformatLogger "Reformat", fun target =>
    ⟨(htells.fails _).timed host reformatLogger "Reformat", hlaid.fails _⟩⟩

end Documents

namespace CommandLine

namespace Arguments.AsksFor

variable {a : Arguments} {settings : RenderSettings} {parse : ParseSettings}

theorem renderSettings (h : a.AsksFor settings parse) :
    a.renderSettings = .ok { settings with flags := 0 } := by
  have hnot : ¬ (settings.width : Int) < 0 := by omega
  have hmarkers : (Datum.text settings.markers.name).text?.bind MarkerStyle.ofName? =
      some settings.markers := MarkerStyle.ofName?_name _
  rw [Arguments.renderSettings, h.width, h.markers, h.escapeFencedCode]
  show (RenderSettings.check settings.width (.text settings.markers.name) _ 0).mapError _ = _
  rw [RenderSettings.check, if_neg hnot, hmarkers]
  rfl

/-- The level that is asked for is one of the known ones. -/
theorem exists_level (h : a.AsksFor settings parse) :
    ∃ n, LogLevel.resolve (a.logLevel.toDatum fun level => .text level.name) = .ok n := by
  cases hlevel : a.logLevel with
  | is level => exact ⟨level.value, by cases level <;> rfl⟩
  | blank => exact absurd hlevel h.logLevel

/-- Standard input has the octets that the settings ask for. -/
theorem octetsOf_eq (h : a.AsksFor settings parse) (host : Host) (content : String) :
    octetsOf host { settings with flags := 0 } a.parseSettings content =
      octetsOf host settings parse content := by
  have hparse : a.parseSettings = parse := by
    rw [Arguments.parseSettings, h.preserveHtml]
  rw [hparse]
  simp only [octetsOf, Node.renderOctets_flags]

/-- Standard input is laid out as the settings ask. -/
theorem rendering (h : a.AsksFor settings parse) {host : Host} {content text : String}
    (hoctets : octetsOf host settings parse content = .ok (Text.Utf8.octets text)) :
    a.rendering host content = .ok text := by
  obtain ⟨n, hlevel⟩ := h.exists_level
  refine Arguments.rendering_eq_ok_iff.mpr
    ⟨n, _, Text.Utf8.octets text, hlevel, h.renderSettings, ?_, ?_⟩
  · rw [h.octetsOf_eq, hoctets]
  · rw [decodeText, Text.Utf8.text_octets]

/-- Standard input is found. -/
theorem finds (h : a.AsksFor settings parse) {host : Host} {content : String}
    (hstdin : host.stdin = Text.Utf8.octets content) (d : Disk) : a.Finds host d content where
  found := by rw [Arguments.inputExists, if_pos h.input]
  text := by rw [Arguments.readInput, if_pos h.input, hstdin, decodeText, Text.Utf8.text_octets]

end Arguments.AsksFor

/-- A command line delivers octets on standard output, or to the file that is named, if it can be
written. -/
def Delivers (host : Host) (words : List String) (out : Option String) (octets : List UInt8) :
    Prop :=
  ∀ disk : Disk, (∀ name ∈ out, (Target.path name).Ready { disk }) →
    ∃ s', run host words { disk } = .ok .success s' ∧
      match out with
      | none => Text.Utf8.octets s'.stdout = octets
      | some name => (Target.path name).received .nothing s'.disk = some octets

/-- A document that is neither compared nor written to a file is printed. -/
theorem Arguments.handOver_print (host : Host) {a : Arguments} (hcheck : a.check = false)
    (hout : fileName? a.out = none) (text rendered : String) (s : Session) :
    a.handOver host text rendered s = .ok .success (s.print rendered) := by
  unfold Arguments.handOver
  rw [hcheck, if_neg Bool.false_ne_true, hout]
  rfl

section Runs

variable {host : Host} {words : List String} {a : Arguments} {settings : RenderSettings}
  {parse : ParseSettings} {content text : String}

/-- Up to handing the document over, a run leaves nothing but records. -/
theorem exists_run_eq_handOver (hread : Arguments.read host.environment words = .ok a)
    (hasks : a.AsksFor settings parse) (hstdin : host.stdin = Text.Utf8.octets content)
    (hoctets : octetsOf host settings parse content = .ok (Text.Utf8.octets text)) (disk : Disk) :
    ∃ s', s'.disk = disk ∧ s'.stdout = "" ∧ s'.journal.file = none ∧
      run host words { disk } = reporting host (a.handOver host content text) s' := by
  have hwarned := noted_warnOfVariables host { disk }
  obtain ⟨s', hdisk, hprinted, hjournal, hrun⟩ := Arguments.run_of_rendering host hasks.logFile
    (hasks.finds hstdin _) (hasks.rendering hoctets)
  refine ⟨s', hdisk.trans (hwarned.disk.eq_of_none rfl), hprinted.trans hwarned.stdout,
    hjournal, ?_⟩
  rw [run_of_read host hread, hrun]

/-- The document is printed on standard output, or written to the file that is named. -/
theorem delivers_of_asksFor (hread : Arguments.read host.environment words = .ok a)
    (hasks : a.AsksFor settings parse) (hstdin : host.stdin = Text.Utf8.octets content)
    (hoctets : octetsOf host settings parse content = .ok (Text.Utf8.octets text)) :
    Delivers host words (fileName? a.out) (Text.Utf8.octets text) := by
  intro disk hready
  obtain ⟨mid, hdisk, hprinted, hjournal, hrun⟩ :=
    exists_run_eq_handOver hread hasks hstdin hoctets disk
  rw [hrun]
  cases hout : fileName? a.out with
  | none =>
    refine ⟨mid.print text, ?_, ?_⟩
    · rw [reporting, Arguments.handOver_print host hasks.check hout]
    · show Text.Utf8.octets (mid.stdout ++ text) = _
      rw [hprinted, String.empty_append]
  | some name =>
    obtain ⟨location, hplace, _⟩ := hready name hout
    have hwrite : mid.disk.write (.ofString name) (Text.Utf8.octets text) =
        .ok (disk.setFile location (Text.Utf8.octets text)) := by
      rw [hdisk, Disk.write, hplace]
      rfl
    rcases Arguments.handOver_cases host hasks.check hout content text mid with
      ⟨d, s', hd, hnoted, hends⟩ | ⟨e, failure, he, _⟩
    · rw [hwrite, Except.ok.injEq] at hd
      have hnow : s'.disk = disk.setFile location (Text.Utf8.octets text) :=
        (hnoted.disk.eq_of_none hjournal).trans hd.symm
      refine ⟨s', by rw [reporting, hends], ?_⟩
      show (Disk.read _ _).toOption = _
      rw [hnow, Disk.read_of_placeFor ((Disk.SameBut.setFile disk location _).placeFor hplace),
        Disk.file?_setFile, if_pos rfl]
    · rw [hwrite] at he
      cases he

/-- Where the document has no octets, and that over a number with too many digits, the run ends with
this error, and nothing has been printed or written. -/
theorem exists_run_eq_error (hread : Arguments.read host.environment words = .ok a)
    (hasks : a.AsksFor settings parse) (hstdin : host.stdin = Text.Utf8.octets content)
    (hoctets : octetsOf host settings parse content = .error .longNumeral) (disk : Disk) :
    ∃ s', run host words { disk } = .error .longNumeral s' ∧ s'.disk = disk ∧ s'.stdout = "" := by
  have hwarned := noted_warnOfVariables host { disk }
  obtain ⟨n, hlevel⟩ := hasks.exists_level
  obtain ⟨mid, hdisk, hprinted, hfile, hconfigured⟩ :=
    Arguments.configure_of_ok host hasks.logFile hlevel (warnOfVariables host { disk })
  have hfailed : (octetsOf host { settings with flags := 0 } a.parseSettings content).bind
      decodeText = .error .longNumeral := by
    rw [hasks.octetsOf_eq, hoctets]
    rfl
  obtain ⟨s', hnoted, hconvert⟩ := Arguments.convert_eq_error host hfailed mid
  have hchosen : Run.ofExcept a.renderSettings mid = .ok { settings with flags := 0 } mid := by
    rw [hasks.renderSettings]
    rfl
  refine ⟨s', ?_, ?_, ?_⟩
  · rw [run_of_read host hread,
      Arguments.run_of_finds host hconfigured (hasks.finds hstdin mid.disk), bind_of_ok hchosen,
      reporting, hconvert]
  · exact (hnoted.disk.eq_of_none hfile).trans (hdisk.trans (hwarned.disk.eq_of_none rfl))
  · exact hnoted.stdout.trans (hprinted.trans hwarned.stdout)

end Runs

end CommandLine

open CommandLine in
/-- All ways deliver the octets of the tree that is read from a text: the text that reformatting
returns, what it writes to any target, what is written there when the tree is laid out, and what a
command line prints or writes that asks for the same settings and reads the text from standard
input. In an environment that changes nothing, the words for the settings make such a command line,
unless the width has too many digits to be read. A tree may have no octets, because an item would
have to show a number with too many digits; then all ways fail with the same error, and nothing is
written. -/
theorem octets_delivered {host : Host} {settings : ReformatSettings} {content : String}
    {root : Node} {s s' : Session} (hwidth : ∀ width ∈ settings.width, 0 ≤ width)
    (hparse :
      parseSource host settings.parse (.octets (Text.Utf8.octets content)) s = .ok root s') :
    (∃ octets, root.renderOctets settings.chosen = .ok octets ∧
      (∀ s, ∃ text s', reformat host settings (.octets (Text.Utf8.octets content)) s = .ok text s' ∧
        Text.Utf8.octets text = octets) ∧
      (∀ target,
        (reformatTo host settings (.octets (Text.Utf8.octets content)) target).Delivers
          target octets ∧
        (renderTo host settings.chosen root target).Delivers target octets) ∧
      (host.stdin = Text.Utf8.octets content →
        (∀ words a, Arguments.read host.environment words = .ok a →
          a.AsksFor settings.chosen settings.parse →
          CommandLine.Delivers host words (fileName? a.out) octets) ∧
        (variableChanges host.environment = [] →
          (toString settings.chosen.width).length ≤ Text.maxDigits →
          ∀ out : Option String, (∀ name ∈ out, name ≠ "" ∧ name ≠ endMark) →
          CommandLine.Delivers host (wordsFor settings.chosen settings.parse out) out octets))) ∨
    (root.renderOctets settings.chosen = .error .longNumeral ∧
      (∃ site ∈ root.sites none 0, site.isOverlong settings.chosen.markers) ∧
      (reformat host settings (.octets (Text.Utf8.octets content))).Tells (.error .longNumeral) ∧
      (∀ target,
        (reformatTo host settings (.octets (Text.Utf8.octets content)) target).Tells
          (.error .longNumeral) ∧
        (renderTo host settings.chosen root target).Tells (.error .longNumeral)) ∧
      (host.stdin = Text.Utf8.octets content →
        ∀ words a, Arguments.read host.environment words = .ok a →
          a.AsksFor settings.chosen settings.parse → ∀ disk, ∃ s',
            CommandLine.run host words { disk } = .error .longNumeral s' ∧
              s'.disk = disk ∧ s'.stdout = "")) := by
  have heffective := ReformatSettings.effective_eq hwidth
  have htree : treeOf host settings.parse content = .ok root := by
    obtain ⟨told, _, hstep⟩ := tells_parseSource host settings.parse content s
    rw [hparse] at hstep
    cases htree : treeOf host settings.parse content with
    | error e =>
      rw [htree] at hstep
      cases hstep
    | ok tree =>
      rw [htree] at hstep
      cases hstep
      rfl
  have hoctets : octetsOf host settings.chosen settings.parse content =
      (root.renderOctets settings.chosen).mapError LayoutError.failure := by
    unfold octetsOf
    rw [htree]
    rfl
  rcases renderOctets_of_treeOf htree settings.chosen with ⟨text, hroot⟩ | ⟨hroot, hlong⟩
  · rw [hroot] at hoctets
    refine .inl ⟨Text.Utf8.octets text, hroot, fun s => ?_, fun target => ?_,
      fun hstdin => ⟨?_, ?_⟩⟩
    · obtain ⟨s', _, hstep⟩ := tells_reformat heffective hoctets s
      exact ⟨text, s', hstep, rfl⟩
    · exact ⟨delivers_reformatTo heffective hoctets target, delivers_renderTo hroot target⟩
    · intro words a hread hasks
      exact delivers_of_asksFor hread hasks hstdin hoctets
    · intro henvironment hdigits out hout
      obtain ⟨a, hread, hasks, hname⟩ :=
        Arguments.exists_read_wordsFor henvironment hdigits settings.parse hout
      have hdelivers := delivers_of_asksFor hread hasks hstdin hoctets
      rwa [hname] at hdelivers
  · rw [hroot] at hoctets
    have hlaid : (root.renderOctets settings.chosen).mapError LayoutError.failure =
        .error .longNumeral := by
      rw [hroot]
      rfl
    obtain ⟨hreformat, htargets⟩ := tells_error heffective hoctets hlaid
    refine .inr ⟨hroot, hlong, hreformat, htargets, fun hstdin words a hread hasks disk => ?_⟩
    exact exists_run_eq_error hread hasks hstdin hoctets disk

open CommandLine in
/-- A paragraph that begins with a dash, with a width that goes before and a number that is carried:
an open file that takes characters and a file whose name begins with a dash receive the same
octets. -/
theorem octets_delivered_dash :
    ∃ (host : Host) (settings : ReformatSettings) (root : Node) (s' : Session),
      (∀ width ∈ settings.width, 0 ≤ width) ∧ settings.width = some 9 ∧ settings.render.flags = 7 ∧
      parseSource host settings.parse (.octets (Text.Utf8.octets "é")) {} = .ok root s' ∧
      host.stdin = Text.Utf8.octets "é" ∧ variableChanges host.environment = [] ∧
      (toString settings.chosen.width).length ≤ Text.maxDigits ∧ "-o" ≠ "" ∧ "-o" ≠ endMark ∧
      (Target.textFile "o.md").Ready {} ∧ (Target.path "-o").Ready {} ∧
      (reformatTo host settings (.octets (Text.Utf8.octets "é")) (.textFile "o.md")).Delivers
        (.textFile "o.md") (Text.Utf8.octets "\\- é\n\n") ∧
      CommandLine.Delivers host (wordsFor settings.chosen settings.parse (some "-o")) (some "-o")
        (Text.Utf8.octets "\\- é\n\n") := by
  have hfacts : ∃ (host : Host) (settings : ReformatSettings) (root : Node) (s' : Session),
      settings.width = some 9 ∧ settings.render.flags = 7 ∧
      parseSource host settings.parse (.octets (Text.Utf8.octets "é")) {} = .ok root s' ∧
      host.stdin = Text.Utf8.octets "é" ∧ variableChanges host.environment = [] ∧
      settings.chosen.width = 9 ∧
      root.renderOctets settings.chosen = .ok (Text.Utf8.octets "\\- é\n\n") :=
    ⟨{ tokenizer := fun _ => .list [.mk .paragraph "" {} [.mk .text "- é" {} []]]
       inventory := ⟨[("mistune", "3.4.0")], ["mistune"]⟩, accepts := fun _ _ => true
       stdin := Text.Utf8.octets "é" },
      { width := some 9, render := { flags := 7 } },
      .branch .document [.branch .paragraph [.leaf (.text "- é")]], _,
      rfl, rfl, rfl, rfl, rfl, rfl, rfl⟩
  obtain ⟨host, settings, root, s', hnine, hflags, hparse, hstdin, henvironment, hchosen, hroot⟩ :=
    hfacts
  have hwidth : ∀ width ∈ settings.width, 0 ≤ width := by
    rw [hnine]
    rintro width hsome
    cases hsome
    decide
  have hdigits : (toString settings.chosen.width).length ≤ Text.maxDigits := by
    rw [hchosen]
    decide
  have hname : "-o" ≠ "" ∧ "-o" ≠ endMark := by decide
  have hdelivered := (octets_delivered hwidth hparse).resolve_right fun hnone => by
    have hfailed := hnone.1
    rw [hroot] at hfailed
    cases hfailed
  obtain ⟨octets, hoctets, _, htargets, hcommands⟩ := hdelivered
  rw [hroot, Except.ok.injEq] at hoctets
  rw [hoctets]
  refine ⟨host, settings, root, s', hwidth, hnine, hflags, hparse, hstdin, henvironment, hdigits,
    hname.1,
    hname.2, ⟨["", "o.md"], rfl, by decide⟩, ⟨["", "-o"], rfl, by decide⟩, (htargets _).1, ?_⟩
  refine (hcommands hstdin).2 henvironment hdigits (some "-o") fun name hsome => ?_
  cases hsome
  exact hname

end MarkdownLayout
