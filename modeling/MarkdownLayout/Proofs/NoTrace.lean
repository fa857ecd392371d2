import MarkdownLayout.Proofs.Records

/-!
# Failed runs leave no trace

A run of a command line that does not succeed has printed nothing on standard output, and the only
file that it may have touched is that of the journal. A run that only looks touches no other file
either, whether it succeeds or not.

The journal is set up first and nothing is handed over before all else has gone well, so the proof
follows the run: `Discreet` says of a step that it spares the session unless it succeeds, and every
step after the journal is set up is such a step. It rests on what a session can do: printing never
fails, and a write to the disk fails before it changes anything or not at all.
-/

namespace MarkdownLayout

/-- The journal is written to the file at a place, when one is given, or to no file. -/
def Session.LogsTo (place : Option Location) (s : Session) : Prop :=
  s.journal.file = none ∨ s.journal.file = place

/-- A session is spared: nothing more was printed on standard output, and no file has changed or
will be written to by the journal but that at a place, when one is given. -/
structure Session.Spares (place : Option Location) (s s' : Session) : Prop where
  /-- Nothing more was printed on standard output. -/
  stdout : s'.stdout = s.stdout
  /-- No file has changed but that at the place. -/
  disk : s.disk.SameBut place s'.disk
  /-- The journal goes to no other file. -/
  logs : s'.LogsTo place

namespace Session

variable {place : Option Location} {s s' s'' : Session}

theorem Spares.trans (h : s.Spares place s') (h' : s'.Spares place s'') : s.Spares place s'' :=
  ⟨h'.stdout.trans h.stdout, h.disk.trans h'.disk, h'.logs⟩

/-- Records spare a session whose journal goes to the place. -/
theorem Noted.spares (h : s.Noted s') (hlogs : s.LogsTo place) : s.Spares place s' := by
  have hdisk := h.disk
  refine ⟨h.stdout, ?_, by rwa [LogsTo, h.file]⟩
  rcases hlogs with hfile | hfile
  · rw [hfile] at hdisk
    exact hdisk.of_none place
  · rwa [hfile] at hdisk

end Session

namespace Run

open CommandLine

/-- The session that a step leaves. -/
def left {α : Type} : EStateM.Result Failure Session α → Session
  | .ok _ s | .error _ s => s

/-- Whether a step ends with a status of zero. -/
def succeeded : EStateM.Result Failure Session Status → Bool
  | .ok status _ => status.code == 0
  | .error .. => false

/-- A step spares the session unless it succeeds, and a strict one even then. -/
def Discreet (place : Option Location) (strict : Bool) (step : Run Status) : Prop :=
  ∀ s : Session, s.LogsTo place → succeeded (step s) = false ∨ strict = true →
    s.Spares place (left (step s))

variable {place : Option Location} {strict : Bool} {α : Type} {step : Run α}
  {outcome : Except Failure α}

theorem left_result (outcome : Except Failure α) (s : Session) : left (result outcome s) = s := by
  cases outcome <;> rfl

/-- A step that leaves nothing but records is discreet, and strictly so. -/
theorem Tells.discreet {step : Run Status} {outcome : Except Failure Status}
    (h : step.Tells outcome) : step.Discreet place strict := by
  intro s hlogs _
  obtain ⟨s', hnoted, hstep⟩ := h s
  rw [hstep, left_result]
  exact hnoted.spares hlogs

/-- A discreet step comes after one that leaves nothing but records. -/
theorem Tells.bind_discreet {next : α → Run Status} (h : step.Tells outcome)
    (hnext : ∀ a, (next a).Discreet place strict) : (step >>= next).Discreet place strict := by
  intro s hlogs hends
  obtain ⟨mid, hnoted, hstep⟩ := h s
  have hmid := hnoted.spares hlogs
  cases outcome with
  | error e =>
    have hall : (step >>= next) s = .error e mid := bind_of_error hstep
    rw [hall]
    exact hmid
  | ok a =>
    have hall : (step >>= next) s = next a mid := bind_of_ok hstep
    rw [hall] at hends ⊢
    exact hmid.trans (hnext a mid hmid.logs hends)

/-- A step that looks at the session is discreet if it is so whatever it sees. -/
theorem discreet_get {next : Session → Run Status} (h : ∀ s, (next s).Discreet place strict) :
    Discreet place strict (get >>= next) :=
  fun s => h s s

/-- A step is discreet if it succeeds wherever it changes the session. -/
theorem discreet_of_succeeded {step : Run Status}
    (h : ∀ s, left (step s) = s ∨ succeeded (step s) = true) : step.Discreet place false := by
  intro s hlogs hends
  rcases h s with hsame | hdone
  · rw [hsame]
    exact (Session.Noted.refl s).spares hlogs
  · simp [hdone] at hends

/-- An error that is put into the journal has spared the session. -/
theorem Discreet.reporting (host : Host) {step : Run Status} (h : step.Discreet place strict) :
    (reporting host step).Discreet place strict := by
  intro s hlogs hends
  have hstep := h s hlogs
  rw [CommandLine.reporting] at hends ⊢
  split at hends
  · rename_i report cause mid hfailed
    rw [hfailed] at hstep
    have hmid := hstep (.inl rfl)
    exact hmid.trans ((Session.noted_record host _ mid).spares hmid.logs)
  · exact hstep hends

end Run

namespace CommandLine

variable {place : Option Location}

/-- Handing a document over is the last thing that can fail, and it fails before anything is
written. -/
theorem Arguments.discreet_handOver (host : Host) (a : Arguments) (text rendered : String) :
    (a.handOver host text rendered).Discreet place a.check := by
  cases hcheck : a.check with
  | true => exact (Arguments.tells_handOver host hcheck text rendered).discreet
  | false =>
    refine Run.discreet_of_succeeded fun s => ?_
    cases hname : fileName? a.out with
    | none =>
      have hall : a.handOver host text rendered s = .ok .success (s.print rendered) := by
        rw [Arguments.handOver, hcheck, if_neg Bool.false_ne_true, hname]
        rfl
      rw [hall]
      exact .inr rfl
    | some name =>
      rcases Arguments.handOver_cases host hcheck hname text rendered s with
        ⟨d, s', _, _, hall⟩ | ⟨e, failure, _, hall⟩
      · rw [hall]
        exact .inr rfl
      · rw [hall]
        exact .inl rfl

theorem Arguments.discreet_convert (host : Host) (a : Arguments) (settings : RenderSettings)
    (text : String) : (a.convert host settings text).Discreet place a.check := by
  refine (tells_reformatOctets host settings a.parseSettings text).bind_discreet fun octets => ?_
  refine (Run.tells_ofExcept (decodeText octets)).bind_discreet fun rendered => ?_
  exact a.discreet_handOver host text rendered

/-- The place of the file that the journal is written to, when arguments name one that can be
opened. -/
def Arguments.journalPlace? (a : Arguments) (d : Disk) : Option Location :=
  (fileName? a.logFile).bind fun name => (d.placeFromRoot (.ofString name)).toOption

/-- Opening the file of the journal touches no other file. -/
theorem spares_openJournalFile (host : Host) (name : String) {s : Session}
    (hfile : s.journal.file = none) :
    s.Spares (s.disk.placeFromRoot (.ofString name)).toOption
      (Run.left (openJournalFile host name s)) := by
  have hget : (get : Run Session) s = .ok s s := rfl
  rw [openJournalFile, bind_of_ok hget]
  cases s.disk.placeFromRoot (.ofString name) with
  | ok location =>
    have hopened : s.Spares (some location) { s with
        disk := s.disk.appendTo location []
        journal := { s.journal with file := some location } } :=
      ⟨rfl, .appendTo s.disk location [], .inr rfl⟩
    exact hopened.trans ((Session.noted_debug host rootLogger _ _).spares hopened.logs)
  | error e =>
    by_cases hcause : e.cause = .nullCharacter
    · simp only [hcause, if_true]
      exact (Session.Noted.refl s).spares (.inl hfile)
    · simp only [hcause, if_false]
      exact (Session.noted_record host _ s).spares (.inl hfile)

/-- Setting the journal up touches no file but its own. -/
theorem spares_configureJournal (host : Host) (level : Datum) (file : Option String) (trace : Bool)
    {s : Session} (hfile : s.journal.file = none) :
    s.Spares (file.bind fun name => (s.disk.placeFromRoot (.ofString name)).toOption)
      (Run.left (configureJournal host level file trace s)) := by
  unfold configureJournal
  generalize LogLevel.resolve level = resolved
  generalize (if trace = true then RecordStyle.trace else RecordStyle.plain) = style
  cases resolved with
  | error e => exact (Session.Noted.refl s).spares (.inl hfile)
  | ok n =>
    let t : Session := { s with journal := { level := n, style := some style, file := none } }
    have hset : ∀ place, s.Spares place t := fun place => ⟨rfl, .refl place s.disk, .inl rfl⟩
    split
    · exact hset _
    · exact hset _
    · rename_i name _
      exact (hset _).trans (spares_openJournalFile host name (show t.journal.file = none from rfl))

/-- What is done once the journal is set up. -/
theorem Arguments.exists_run_eq (host : Host) (a : Arguments) :
    ∃ rest : Run Status, a.run host = (a.configure host >>= fun _ => rest) ∧
      ∀ place, rest.Discreet place a.check := by
  refine ⟨_, rfl, fun place => Run.discreet_get fun s => ?_⟩
  refine (Run.tells_ofExcept _).bind_discreet fun found => ?_
  cases found with
  | false =>
    exact ((Run.tells_pure Status.inputError).after (Session.noted_complain _)).discreet
  | true =>
    refine Run.discreet_get fun s => ?_
    cases a.readInput host s.disk with
    | error e =>
      exact ((Run.tells_pure Status.inputError).after (Session.noted_complain _)).discreet
    | ok text =>
      refine (Run.tells_ofExcept a.renderSettings).bind_discreet fun settings => ?_
      exact (a.discreet_convert host settings text).reporting host

theorem Arguments.spares_run (host : Host) (a : Arguments) {s : Session}
    (hfile : s.journal.file = none)
    (hends : Run.succeeded (a.run host s) = false ∨ a.check = true) :
    s.Spares (a.journalPlace? s.disk) (Run.left (a.run host s)) := by
  obtain ⟨rest, hrun, hrest⟩ := a.exists_run_eq host
  have hconfigured : s.Spares (a.journalPlace? s.disk) (Run.left (a.configure host s)) :=
    spares_configureJournal host _ (fileName? a.logFile) a.trace hfile
  rw [hrun] at hends ⊢
  cases hstep : a.configure host s with
  | error e mid =>
    rw [hstep] at hconfigured
    rw [bind_of_error hstep]
    exact hconfigured
  | ok _ mid =>
    rw [hstep] at hconfigured
    rw [bind_of_ok hstep] at hends ⊢
    exact hconfigured.trans (hrest _ mid hconfigured.logs hends)

/-- Warnings about variables are records. -/
theorem noted_warnOfVariables (host : Host) (s : Session) : s.Noted (warnOfVariables host s) := by
  unfold warnOfVariables
  generalize variableFaults host.environment = faults
  refine Session.noted_foldl ?_ faults s
  intro s fault
  exact Session.noted_warn host fault.message s

/-- The place of the file that a command line has the journal written to. -/
def journalPlace? (host : Host) (words : List String) (d : Disk) : Option Location :=
  match Arguments.read host.environment words with
  | .ok a => a.journalPlace? d
  | .error _ => none

/-- Telling why a command line is not followed leaves the disk as it is. -/
theorem Stop.disk_print (inventory : Inventory) (stop : Stop) (s : Session) :
    (Run.left ((stop.print inventory >>= fun _ => pure stop.status) s)).disk = s.disk := by
  cases stop with
  | help => rfl
  | usage e => rfl
  | version =>
    unfold Stop.print
    cases layOutNotice (versionNotice inventory) <;> rfl

/-- A command line that is not followed prints on standard output only when help or the version was
asked for and can be told. -/
theorem Stop.discreet_print (inventory : Inventory) (stop : Stop) :
    Run.Discreet none false (stop.print inventory >>= fun _ => pure stop.status) := by
  cases stop with
  | help => exact Run.discreet_of_succeeded fun s => .inr rfl
  | usage e =>
    exact ((Run.tells_pure Status.inputError).after (Session.noted_complain _)).discreet
  | version =>
    refine Run.discreet_of_succeeded fun s => ?_
    unfold Stop.print
    cases layOutNotice (versionNotice inventory) with
    | ok notice => exact .inr rfl
    | error e => exact .inl rfl

/-- A command line that can be read is followed, once it has been warned of variables. -/
theorem run_of_read (host : Host) {words : List String} {a : Arguments}
    (hread : Arguments.read host.environment words = .ok a) (s : Session) :
    run host words s = a.run host (warnOfVariables host s) := by
  have harguments : readArguments host words s = .ok (.ok a) (warnOfVariables host s) := by
    unfold readArguments
    rw [hread]
    rfl
  unfold run
  rw [bind_of_ok harguments]

/-- Of a command line that cannot be read it is told why. -/
theorem run_of_stop (host : Host) {words : List String} {stop : Stop}
    (hread : Arguments.read host.environment words = .error stop) (s : Session) :
    run host words s =
      (stop.print host.inventory >>= fun _ => pure stop.status) (warnOfVariables host s) := by
  have harguments : readArguments host words s =
      (stop.print host.inventory >>= fun _ => pure (.error stop.status))
        (warnOfVariables host s) := by
    unfold readArguments
    rw [hread]
    rfl
  unfold run
  cases hprint : stop.print host.inventory (warnOfVariables host s) with
  | ok _ mid =>
    rw [bind_of_ok hprint] at harguments ⊢
    rw [bind_of_ok harguments]
  | error e mid =>
    rw [bind_of_error hprint] at harguments ⊢
    rw [bind_of_error harguments]

/-- A run that does not succeed spares the session, and so does one that only looks. -/
theorem spares_run (host : Host) (words : List String) (disk : Disk)
    (hends : Run.succeeded (run host words { disk }) = false ∨
      ∃ a, Arguments.read host.environment words = .ok a ∧ a.check = true) :
    Session.Spares (journalPlace? host words disk) { disk }
      (Run.left (run host words { disk })) := by
  have hwarned := noted_warnOfVariables host { disk }
  have hdisk : (warnOfVariables host { disk }).disk = disk := hwarned.disk.eq_of_none rfl
  cases hread : Arguments.read host.environment words with
  | ok a =>
    have hrun := run_of_read host hread { disk }
    have hstrict : Run.succeeded (a.run host (warnOfVariables host { disk })) = false ∨
        a.check = true := by
      rcases hends with hfailed | ⟨b, hb, hcheck⟩
      · exact .inl (hrun ▸ hfailed)
      · rw [hread] at hb
        cases hb
        exact .inr hcheck
    have hspared := a.spares_run host hwarned.file hstrict
    rw [hdisk] at hspared
    rw [hrun, journalPlace?, hread]
    exact (hwarned.spares (.inl rfl)).trans hspared
  | error stop =>
    have hrun := run_of_stop host hread { disk }
    have hfailed : Run.succeeded (run host words { disk }) = false := by
      rcases hends with hfailed | ⟨b, hb, _⟩
      · exact hfailed
      · rw [hread] at hb
        cases hb
    rw [hrun] at hfailed ⊢
    rw [journalPlace?, hread]
    exact (hwarned.spares (.inl rfl)).trans
      (stop.discreet_print host.inventory _ (.inl hwarned.file) (.inl hfailed))

/-- A run that does not succeed, be it that it ends in another status than zero or that it fails,
has printed nothing on standard output and has changed, made or removed no file but that of the
journal. A run that only looks has not done so either, whatever its status. A command line that is
not followed changes no file at all. -/
theorem run_leaves_no_trace (host : Host) (words : List String) (disk : Disk) :
    (∀ failure s', run host words { disk } = .error failure s' →
      s'.stdout = "" ∧ ∀ location, some location ≠ journalPlace? host words disk →
        s'.disk.file? location = disk.file? location) ∧
    (∀ status s', run host words { disk } = .ok status s' → status.code ≠ 0 →
      s'.stdout = "" ∧ ∀ location, some location ≠ journalPlace? host words disk →
        s'.disk.file? location = disk.file? location) ∧
    (∀ a, Arguments.read host.environment words = .ok a → a.check = true →
      (Run.left (run host words { disk })).stdout = "" ∧
      ∀ location, some location ≠ journalPlace? host words disk →
        (Run.left (run host words { disk })).disk.file? location = disk.file? location) ∧
    (∀ stop, Arguments.read host.environment words = .error stop →
      (Run.left (run host words { disk })).disk = disk) := by
  have hspares := spares_run host words disk
  refine ⟨?_, ?_, ?_, ?_⟩
  · intro failure s' hrun
    rw [hrun] at hspares
    have hspared := hspares (.inl rfl)
    exact ⟨hspared.stdout, hspared.disk.file?⟩
  · intro status s' hrun hstatus
    rw [hrun] at hspares
    have hspared := hspares (.inl (beq_false_of_ne hstatus))
    exact ⟨hspared.stdout, hspared.disk.file?⟩
  · intro a hread hcheck
    have hspared := hspares (.inr ⟨a, hread, hcheck⟩)
    exact ⟨hspared.stdout, hspared.disk.file?⟩
  · intro stop hread
    have hwarned := noted_warnOfVariables host { disk }
    rw [run_of_stop host hread, stop.disk_print]
    exact hwarned.disk.eq_of_none rfl

/-- A document that cannot be written because a directory is missing: the journal has a line about
it in its own file, and the input is as it was. -/
theorem run_leaves_no_trace_unwritable :
    ∃ (host : Host) (disk : Disk) (s' : Session),
      disk.files = [(["", "f.md"], [97])] ∧
      run host ["f.md", "--out", "d/g.md", "--log-file", "j.log"] { disk } = .ok .error s' ∧
      Status.error.code ≠ 0 ∧
      some ["", "f.md"] ≠
        journalPlace? host ["f.md", "--out", "d/g.md", "--log-file", "j.log"] disk ∧
      s'.disk.file? ["", "j.log"] ≠ disk.file? ["", "j.log"] ∧
      s'.stdout = "" ∧ s'.disk.file? ["", "f.md"] = disk.file? ["", "f.md"] := by
  have hends : ∃ (host : Host) (disk : Disk) (s' : Session),
      disk.files = [(["", "f.md"], [97])] ∧
      run host ["f.md", "--out", "d/g.md", "--log-file", "j.log"] { disk } = .ok .error s' ∧
      some ["", "f.md"] ≠
        journalPlace? host ["f.md", "--out", "d/g.md", "--log-file", "j.log"] disk ∧
      s'.disk.file? ["", "j.log"] ≠ disk.file? ["", "j.log"] :=
    ⟨{ tokenizer := fun _ => .list [.mk .paragraph "" {} [.mk .text "a" {} []]]
       inventory := ⟨[("mistune", "3.4.0")], ["mistune"]⟩, accepts := fun _ _ => true },
      { files := [(["", "f.md"], [97])] }, _, rfl, rfl, by decide, by decide⟩
  obtain ⟨host, disk, s', hfiles, hrun, hother, hjournal⟩ := hends
  have hspared := (run_leaves_no_trace host _ disk).2.1 .error s' hrun (by decide)
  exact ⟨host, disk, s', hfiles, hrun, by decide, hother, hjournal, hspared.1,
    hspared.2 _ hother⟩

end CommandLine
end MarkdownLayout
