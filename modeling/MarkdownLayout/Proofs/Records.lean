import MarkdownLayout.CommandLine.Run
import MarkdownLayout.Text.Utf8.RoundTrip

/-!
# Steps that only leave records

Most of what the program does with its session is to write records, and records go to standard error
and to the file of the journal. `Noted` says that a session differs from an earlier one in nothing
else. `Tells` says of a step that it leaves nothing but records, and gives its outcome, which then
does not depend on the session. Reading a document and laying it out are such steps; their outcome
is that of `octetsOf`.
-/

namespace MarkdownLayout

/-- One disk is like another one, but for the file at a place, when a place is given. -/
structure Disk.SameBut (place : Option Location) (d d' : Disk) : Prop where
  /-- The working directory is the same. -/
  home : d'.home = d.home
  /-- The directories are the same. -/
  directories : d'.directories = d.directories
  /-- The other files are the same. -/
  file? : ∀ location, some location ≠ place → d'.file? location = d.file? location
  /-- Nothing is different when no place is given. -/
  eq_of_none : place = none → d' = d

namespace Disk.SameBut

variable {place : Option Location} {d d' d'' : Disk}

/-- A disk is like itself, whatever place is given. -/
theorem refl (place : Option Location) (d : Disk) : d.SameBut place d :=
  ⟨rfl, rfl, fun _ _ => rfl, fun _ => rfl⟩

/-- A disk that is like a second one, which is like a third, is like the third, if the place is
one. -/
theorem trans (h : d.SameBut place d') (h' : d'.SameBut place d'') : d.SameBut place d'' where
  home := h'.home.trans h.home
  directories := h'.directories.trans h.directories
  file? location hl := (h'.file? location hl).trans (h.file? location hl)
  eq_of_none hp := (h'.eq_of_none hp).trans (h.eq_of_none hp)

/-- A disk on which no file has changed is like the former one but for any place. -/
theorem of_none (h : d.SameBut none d') (place : Option Location) : d.SameBut place d' := by
  rw [h.eq_of_none rfl]
  exact refl place d

/-- The file at the place is given octets. -/
theorem setFile (d : Disk) (location : Location) (octets : List UInt8) :
    d.SameBut (some location) (d.setFile location octets) where
  home := rfl
  directories := rfl
  file? other hne := by rw [Disk.file?_setFile, if_neg fun he => hne (by rw [he])]
  eq_of_none hp := by cases hp

/-- Octets are added to the file at the place. -/
theorem appendTo (d : Disk) (location : Location) (octets : List UInt8) :
    d.SameBut (some location) (d.appendTo location octets) :=
  setFile d location _

end Disk.SameBut

/-- A session that differs from an earlier one by records only: nothing more was printed on standard
output, and no file has changed but that of the journal. -/
structure Session.Noted (s s' : Session) : Prop where
  /-- Nothing more was printed on standard output. -/
  stdout : s'.stdout = s.stdout
  /-- The journal is written to the same file. -/
  file : s'.journal.file = s.journal.file
  /-- No file has changed but that of the journal. -/
  disk : s.disk.SameBut s.journal.file s'.disk

namespace Session

variable {s s' s'' : Session}

/-- A session to which nothing has been done has no new records. -/
theorem Noted.refl (s : Session) : s.Noted s :=
  ⟨rfl, rfl, .refl _ _⟩

/-- Records may be written one after the other. The place of the journal does not change in
between. -/
theorem Noted.trans (h : s.Noted s') (h' : s'.Noted s'') : s.Noted s'' where
  stdout := h'.stdout.trans h.stdout
  file := h'.file.trans h.file
  disk := h.disk.trans (h.file ▸ h'.disk)

/-- A complaint goes to the error stream and nowhere else. -/
theorem noted_complain (text : String) (s : Session) : s.Noted (s.complain text) :=
  ⟨rfl, rfl, .refl _ _⟩

/-- A line goes to the journal, and to no other file. Without a journal it is dropped. -/
theorem noted_keep (line : String) (s : Session) : s.Noted (s.keep line) := by
  rw [keep]
  split
  · rename_i location hfile
    exact ⟨rfl, rfl, hfile ▸ .appendTo s.disk location _⟩
  · exact .refl s

/-- A record whose level is admitted is shown and kept, and any other leaves the session as it
is. -/
theorem noted_record (host : Host) (r : LogRecord) (s : Session) : s.Noted (s.record host r) := by
  rw [record]
  split
  · split
    · exact (noted_complain _ s).trans (noted_keep _ _)
    · split
      · exact noted_complain _ s
      · exact .refl s
  · exact .refl s

/-- Details of the work are records like others. -/
theorem noted_debug (host : Host) (logger message : String) (s : Session) :
    s.Noted (s.debug host logger message) :=
  noted_record host _ s

/-- So is the time that an operation has taken. -/
theorem noted_finished (host : Host) (logger operation : String) (s : Session) :
    s.Noted (s.finished host logger operation) :=
  noted_debug host logger _ s

/-- A warning of the program's own is a record, in the brief style where none has been chosen. -/
theorem noted_warn (host : Host) (message : String) (s : Session) :
    s.Noted (s.warn host message) := by
  have hstyle : s.Noted { s with journal := { s.journal with
      style := s.journal.style.or (some .brief) } } := ⟨rfl, rfl, .refl _ _⟩
  exact hstyle.trans (noted_record host _ _)

/-- Many records are written one after the other. -/
theorem noted_foldl {α : Type} {f : Session → α → Session}
    (h : ∀ (s : Session) (a : α), s.Noted (f s a)) (as : List α) (s : Session) :
    s.Noted (as.foldl f s) := by
  induction as generalizing s with
  | nil => exact .refl s
  | cons a as ih => exact (h s a).trans (ih (f s a))

end Session

namespace Run

/-- The result of a step with a given outcome and the session that it leaves. -/
def result {α : Type} (outcome : Except Failure α) (s : Session) :
    EStateM.Result Failure Session α :=
  match outcome with
  | .ok a => .ok a s
  | .error e => .error e s

/-- A step has an outcome, whatever the session, and leaves nothing but records. -/
def Tells {α : Type} (step : Run α) (outcome : Except Failure α) : Prop :=
  ∀ s : Session, ∃ s', s.Noted s' ∧ step s = result outcome s'

variable {α β : Type} {step : Run α} {outcome : Except Failure α}

/-- An outcome that is there already leaves the session as it is. -/
theorem tells_ofExcept (outcome : Except Failure α) : (ofExcept outcome).Tells outcome := by
  intro s
  refine ⟨s, .refl s, ?_⟩
  cases outcome <;> rfl

/-- An answer is an outcome, and needs no session. -/
theorem tells_pure (a : α) : Tells (pure a) (.ok a) :=
  tells_ofExcept (.ok a)

/-- A change of the session that only adds records has nothing to tell. -/
theorem tells_modify {f : Session → Session} (h : ∀ s : Session, s.Noted (f s)) :
    Tells (modify f) (.ok ()) :=
  fun s => ⟨f s, h s, rfl⟩

/-- Two steps tell what the second makes of the answer of the first, or the failure of the first. -/
theorem Tells.bind {next : α → Run β} {outcomes : α → Except Failure β} (h : step.Tells outcome)
    (hnext : ∀ a, (next a).Tells (outcomes a)) : (step >>= next).Tells (outcome.bind outcomes) := by
  intro s
  obtain ⟨mid, hmid, hstep⟩ := h s
  cases outcome with
  | error e => exact ⟨mid, hmid, bind_of_error hstep⟩
  | ok a =>
    obtain ⟨s', hs', hresult⟩ := hnext a mid
    have hall : (step >>= next) s = next a mid := bind_of_ok hstep
    exact ⟨s', hmid.trans hs', hall.trans hresult⟩

/-- What follows a step that fails is not done. -/
theorem Tells.fails {e : Failure} (h : step.Tells (.error e)) (next : α → Run β) :
    (step >>= next).Tells (.error e) := by
  intro s
  obtain ⟨s', hnoted, hstep⟩ := h s
  exact ⟨s', hnoted, bind_of_error hstep⟩

/-- A step that leaves records is done in between. -/
theorem Tells.after {f : Session → Session} (h : ∀ s : Session, s.Noted (f s))
    (hstep : step.Tells outcome) : Tells (modify f >>= fun _ => step) outcome :=
  (tells_modify h).bind fun _ => hstep

/-- A step is followed by a record about its answer. -/
theorem Tells.noting {f : α → Session → Session} (hstep : step.Tells outcome)
    (h : ∀ a (s : Session), s.Noted (f a s)) :
    Tells (step >>= fun a => modify (f a) >>= fun _ => pure a) outcome := by
  have hdone := hstep.bind fun a => (tells_pure a).after (h a)
  cases outcome <;> exact hdone

/-- A step looks at the session, and its outcome is the same whatever it sees. -/
theorem tells_get {next : Session → Run α} (h : ∀ s, (next s).Tells outcome) :
    Tells (get >>= next) outcome :=
  fun s => h s s

/-- A step that is timed leaves one more record when it ends, and has the same outcome. -/
theorem Tells.timed (host : Host) (logger operation : String) (h : step.Tells outcome) :
    (timed host logger operation step).Tells outcome :=
  h.noting fun _ => Session.noted_finished host logger operation

end Run

/-- The tree of a text. -/
def treeOf (host : Host) (settings : ParseSettings) (text : String) : Except Failure Node := do
  host.demandTokenizer
  let tokens ← (host.tokenizer text).get
  match Node.ofTokens settings tokens #[] with
  | .ok node _ => return node
  | .error e _ => throw (.build e)

/-- The octets in which a text is laid out. -/
def octetsOf (host : Host) (settings : RenderSettings) (parse : ParseSettings) (text : String) :
    Except Failure (List UInt8) := do
  let root ← treeOf host parse text
  (root.renderOctets settings).mapError LayoutError.failure

/-- The tokens of a text are those of the tokenizer at hand, with a record of the time that they
took. -/
theorem tells_tokenize (host : Host) (text : String) :
    (tokenize host text).Tells (.ok (host.tokenizer text)) := by
  have hseen : ∀ s : Session, s.Noted { s with tokenized := s.tokenized ++ [text] } :=
    fun s => ⟨rfl, rfl, .refl _ _⟩
  exact ((Run.tells_pure _).after (Session.noted_finished host parseLogger _)).after hseen

/-- Reading tokens has the tree or the error of the pure reader for its outcome. -/
theorem tells_readTokens (host : Host) (settings : ParseSettings) (tokens : List Token) :
    (readTokens host settings tokens).Tells
      (match Node.ofTokens settings tokens #[] with
        | .ok node _ => .ok node
        | .error e _ => .error (.build e)) := by
  intro s
  have hnoted : ∀ notes : Array Skipped, s.Noted
      (notes.foldl (fun s note => s.debug host parseLogger note.message) s) := by
    intro notes
    rw [← Array.foldl_toList]
    exact Session.noted_foldl (fun s note => Session.noted_debug host parseLogger _ s) _ s
  rw [readTokens]
  cases Node.ofTokens settings tokens #[] with
  | ok node notes => exact ⟨_, hnoted notes, rfl⟩
  | error e notes => exact ⟨_, hnoted notes, rfl⟩

/-- Reading octets that write a text has the tree of the text for its outcome. -/
theorem tells_parseSource (host : Host) (settings : ParseSettings) (text : String) :
    (parseSource host settings (.octets (Text.Utf8.octets text))).Tells
      (treeOf host settings text) := by
  have hread : ∀ d : Disk, Source.read d (.octets (Text.Utf8.octets text)) = .ok text := by
    intro d
    rw [Source.read, decodeText, Text.Utf8.text_octets]
  have htokens := (tells_tokenize host text).bind fun tokens =>
    (Run.tells_ofExcept tokens.get).bind (tells_readTokens host settings)
  refine (Run.tells_ofExcept _).bind fun _ => Run.tells_get fun s => ?_
  rw [hread]
  exact htokens

/-- Laying a tree out has its octets for its outcome. -/
theorem tells_renderTree (host : Host) (settings : RenderSettings) (root : Node) :
    (renderTree host settings root).Tells
      ((root.renderOctets settings).mapError LayoutError.failure) := by
  have hlaid := (Run.tells_ofExcept ((root.renderOctets settings).mapError
    LayoutError.failure)).timed host renderLogger "Rendering (commonmark)"
  exact (hlaid.noting fun octets => Session.noted_debug host renderLogger _).after
    (Session.noted_debug host renderLogger _)

/-- Reading a text and laying it out has the octets of the layout for its outcome, or the first
error of the two. -/
theorem tells_reformatOctets (host : Host) (settings : RenderSettings) (parse : ParseSettings)
    (text : String) :
    (reformatOctets host settings parse (.octets (Text.Utf8.octets text))).Tells
      (octetsOf host settings parse text) :=
  (tells_parseSource host parse text).bind (tells_renderTree host settings)

/-- A document that is only looked at is compared with its text. -/
theorem CommandLine.Arguments.tells_handOver (host : Host) {a : Arguments} (hcheck : a.check = true)
    (text rendered : String) :
    (a.handOver host text rendered).Tells (.ok (if rendered = text then .success else .error)) := by
  rw [Arguments.handOver, hcheck, if_pos rfl]
  by_cases hsame : rendered = text
  · rw [if_pos hsame, if_pos hsame]
    exact Run.tells_pure _
  · rw [if_neg hsame, if_neg hsame]
    exact (Run.tells_pure _).after (Session.noted_record host _)

/-- A document that is written to a file is there, and all went well, or the file could not be
written and nothing has changed. -/
theorem CommandLine.Arguments.handOver_cases (host : Host) {a : Arguments} {name : String}
    (hcheck : a.check = false) (hname : fileName? a.out = some name) (text rendered : String)
    (s : Session) :
    (∃ d s', s.disk.write (.ofString name) (Text.Utf8.octets rendered) = .ok d ∧
      { s with disk := d }.Noted s' ∧ a.handOver host text rendered s = .ok .success s') ∨
    ∃ e failure, s.disk.write (.ofString name) (Text.Utf8.octets rendered) = .error e ∧
      a.handOver host text rendered s = .error failure s := by
  have hall : a.handOver host text rendered =
      (Run.onDisk (Target.deliver (.text rendered) (.path name)) >>= fun _ =>
        modify (Session.record host ⟨commandLogger, LogLevel.info.value,
          "Reformatted " ++ a.input ++ " -> " ++ name⟩) >>= fun _ => pure .success) := by
    rw [Arguments.handOver, hcheck, if_neg Bool.false_ne_true, hname]
  rw [hall]
  cases hwrite : s.disk.write (.ofString name) (Text.Utf8.octets rendered) with
  | ok d =>
    have hstep : Run.onDisk (Target.deliver (.text rendered) (.path name)) s =
        .ok .nothing { s with disk := d } := by
      simp only [Run.onDisk, Target.deliver, writeToPath, Content.toOctets, hwrite]
    exact .inl ⟨d, _, rfl, Session.noted_record host _ _, bind_of_ok hstep⟩
  | error e =>
    have hstep : ∃ failure,
        Run.onDisk (Target.deliver (.text rendered) (.path name)) s = .error failure s := by
      simp only [Run.onDisk, Target.deliver, writeToPath, Content.toOctets, hwrite]
      by_cases hcause : e.cause = .nullCharacter
      · exact ⟨.disk e, by rw [if_pos hcause]⟩
      · exact ⟨_, by rw [if_neg hcause]⟩
    have ⟨failure, hfailed⟩ := hstep
    exact .inr ⟨e, failure, rfl, bind_of_error hfailed⟩

end MarkdownLayout
