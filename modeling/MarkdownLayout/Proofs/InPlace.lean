import MarkdownLayout.Proofs.Draft.Script
import MarkdownLayout.Proofs.NoTrace

/-!
# Checking and reformatting in place

A check of a file passes when the document, laid out, is the text that was read; reformatting it in
place keeps the file when the document is what the file holds. The two differ by line ends: they are
made one when a file is read, and the file is written with what was laid out. `check_iff_kept` gives
both conditions, and says that the check answers whether the file would be kept exactly as long as
no carriage return comes in.
-/

namespace MarkdownLayout.CommandLine

/-- A word before the end mark is told apart from those after it. -/
theorem classifyAll_cons_eq_ok_iff {w : String} {ws : List String} {xs : List Word}
    (hw : w ≠ endMark) :
    classifyAll (w :: ws) = .ok xs ↔
      ∃ word rest, classify w = .ok word ∧ classifyAll ws = .ok rest ∧ xs = word :: rest := by
  rw [classifyAll, if_neg hw]
  constructor
  · intro h
    obtain ⟨word, hword, h⟩ := exists_of_bind_eq_ok h
    obtain ⟨rest, hrest, h⟩ := exists_of_bind_eq_ok h
    cases h
    exact ⟨word, rest, hword, hrest, rfl⟩
  · rintro ⟨word, rest, hword, hrest, rfl⟩
    rw [hword, hrest]
    rfl

/-- Words that have no end mark are told apart one by one. -/
theorem classifyAll_append {ws vs : List String} {xs ys : List Word} (hmark : endMark ∉ ws)
    (hws : classifyAll ws = .ok xs) (hvs : classifyAll vs = .ok ys) :
    classifyAll (ws ++ vs) = .ok (xs ++ ys) := by
  induction ws generalizing xs with
  | nil =>
    cases hws
    exact hvs
  | cons w ws ih =>
    rw [List.mem_cons, not_or] at hmark
    have hw : w ≠ endMark := fun he => hmark.1 he.symm
    obtain ⟨word, rest, hword, hrest, rfl⟩ := (classifyAll_cons_eq_ok_iff hw).mp hws
    exact (classifyAll_cons_eq_ok_iff hw).mpr ⟨word, rest ++ ys, hword, ih hmark.2 hrest, rfl⟩

/-- A list that does not begin with the end mark does not do so before words that do not either. -/
theorem append_ne_ending {xs ys : List Word} (hxs : ∀ rest, xs ≠ .ending :: rest)
    (hys : ys.head? ≠ some .ending) (rest : List Word) : xs ++ ys ≠ .ending :: rest := by
  intro he
  cases xs with
  | nil =>
    rw [List.nil_append] at he
    exact hys (by rw [he, List.head?_cons])
  | cons x xs =>
    rw [List.cons_append, List.cons.injEq] at he
    exact hxs xs (by rw [he.1])

/-- An option without a value does what it does, whatever comes after it. -/
theorem Progress.read_perform {flag : Flag} {changes : List Change}
    (htakes : ¬flag.takesValue = true) (hperform : perform flag = .ok changes) (p : Progress)
    (name : String) (rest : List Word) :
    p.read (.option flag name none :: rest) =
      { p with changes := p.changes ++ changes }.read rest := by
  rw [Progress.read.eq_def]
  simp only [if_neg htakes, hperform]

/-- Words are read after those that have been read, unless the end mark comes next. -/
theorem Progress.read_append {p q : Progress} {xs ys : List Word} (hread : p.read xs = .ok q)
    (hys : ys.head? ≠ some .ending) : p.read (xs ++ ys) = q.read ys := by
  fun_induction Progress.read p xs with
  | case1 p =>
    cases hread
    rfl
  | case2 p text rest hnone ih =>
    rw [List.cons_append, List.cons_append, Progress.read, if_pos hnone]
    exact ih hread
  | case3 p text rest hsome ih =>
    rw [List.cons_append, List.cons_append, Progress.read, if_neg hsome]
    exact ih hread
  | case4 p text rest hrest hnone ih =>
    rw [List.cons_append, Progress.read, if_pos hnone]
    · exact ih hread
    · exact append_ne_ending hrest hys
  | case5 p text rest hrest hsome ih =>
    rw [List.cons_append, Progress.read, if_neg hsome]
    · exact ih hread
    · exact append_ne_ending hrest hys
  | case6 p rest hnone ih =>
    rw [List.cons_append, Progress.read, if_pos hnone]
    exact ih hread
  | case7 p rest hsome ih =>
    rw [List.cons_append, Progress.read, if_neg hsome]
    exact ih hread
  | case8 p text rest ih =>
    rw [List.cons_append, Progress.read]
    exact ih hread
  | case9 p flag name rest htakes text next htake ih =>
    rw [List.cons_append, Progress.read, if_pos htakes, htake]
    exact ih hread
  | case11 p flag name htakes text rest next htake ih =>
    rw [List.cons_append, List.cons_append, Progress.read, if_pos htakes, htake]
    exact ih hread
  | case15 p flag name rest htakes changes hperform ih =>
    rw [List.cons_append, Progress.read_perform htakes hperform]
    exact ih hread
  -- all else is an error, whatever comes after it
  | case10 | case12 | case13 | case14 | case16 => cases hread

/-- The operand is one of the words. -/
theorem Progress.operand_mem_of_read {p q : Progress} {xs : List Word} {text : String}
    (hread : p.read xs = .ok q) (hinput : q.input = some text) :
    p.input = some text ∨ .operand text ∈ xs := by
  fun_induction Progress.read p xs with
  | case1 p =>
    cases hread
    exact .inl hinput
  | case2 p word rest hnone ih | case4 p word rest hrest hnone ih =>
    rcases ih hread with he | hmem
    · cases he
      exact .inr (by simp)
    · exact .inr (by simp [hmem])
  | case9 p flag name rest htakes word next htake ih
  | case11 p flag name htakes word rest next htake ih =>
    have hkept : next.input = p.input := by
      unfold Progress.take at htake
      split at htake <;> cases htake
      rfl
    rw [hkept] at ih
    exact (ih hread).imp_right fun hmem => by simp [hmem]
  | case3 p word rest hsome ih | case5 p word rest hrest hsome ih | case6 p rest hnone ih
  | case7 p rest hsome ih | case8 p word rest ih
  | case15 p flag name rest htakes changes hperform ih =>
    exact (ih hread).imp_right fun hmem => by simp [hmem]
  | case10 | case12 | case13 | case14 | case16 => cases hread

/-- What a word may stand for are options. -/
theorem operand_notMem_candidates (text name : String) : Word.operand name ∉ candidates text := by
  unfold candidates
  split
  · simp [longCandidates]
  · simp [shortCandidates]

/-- A word that names an option in full is no operand. -/
theorem exactOption?_ne_operand (text name : String) :
    exactOption? text ≠ some (.operand name) := by
  unfold exactOption?
  split
  · simp
  · simp [Option.bind_eq_some_iff]

/-- A word that names something to work on stands for itself. -/
theorem eq_of_classify {text name : String} (h : classify text = .ok (.operand name)) :
    name = text := by
  unfold classify at h
  split at h
  · cases h; rfl
  · cases h; rfl
  · split at h
    · rename_i word hword
      cases h
      exact absurd hword (exactOption?_ne_operand text name)
    · unfold classifyDashed at h
      split at h
      · rename_i word hcandidates
        cases h
        exact absurd (by rw [hcandidates]; exact List.mem_singleton_self _)
          (operand_notMem_candidates text name)
      · cases h
      · split at h <;> cases h
        rfl
  · cases h; rfl

/-- A word that names something to work on is one of the words, and does so wherever it stands. -/
theorem classify_of_mem {ws : List String} {xs : List Word} {text : String} (hmark : endMark ∉ ws)
    (hws : classifyAll ws = .ok xs) (hmem : .operand text ∈ xs) :
    text ∈ ws ∧ classify text = .ok (.operand text) := by
  induction ws generalizing xs with
  | nil =>
    cases hws
    simp at hmem
  | cons w ws ih =>
    rw [List.mem_cons, not_or] at hmark
    have hw : w ≠ endMark := fun he => hmark.1 he.symm
    obtain ⟨word, rest, hword, hrest, rfl⟩ := (classifyAll_cons_eq_ok_iff hw).mp hws
    rcases List.mem_cons.mp hmem with he | hlater
    · rw [← he] at hword
      have htext := eq_of_classify hword
      rw [htext] at hword ⊢
      exact ⟨List.mem_cons_self, hword⟩
    · have hfound := ih hmark.2 hrest hlater
      exact ⟨List.mem_cons_of_mem w hfound.1, hfound.2⟩

/-- The file to read is not changed by options. -/
theorem Arguments.input_changeAll (a : Arguments) (cs : List Change) :
    (a.changeAll cs).input = a.input := by
  induction cs generalizing a with
  | nil => rfl
  | cons c cs ih =>
    rw [Arguments.changeAll_cons, ih]
    cases c <;> rfl

/-- What it takes for a command line to be followed: its words are told apart and read, and none is
left over. -/
theorem Arguments.read_eq_ok_iff {environment : List (String × String)} {ws : List String}
    {a : Arguments} :
    Arguments.read environment ws = .ok a ↔
      ∃ xs p, classifyAll ws = .ok xs ∧ Progress.read {} xs = .ok p ∧ p.extras.isEmpty = true ∧
        a = (({ input := p.input.getD "-" } : Arguments).changeAll
          (variableChanges environment)).changeAll p.changes := by
  unfold Arguments.read readWords
  constructor
  · intro h
    cases hws : classifyAll ws with
    | error e => simp [hws] at h
    | ok xs =>
      cases hxs : Progress.read {} xs with
      | error stop => simp [hws, hxs] at h
      | ok p =>
        by_cases hextras : p.extras.isEmpty = true
        · simp only [hws, hxs, hextras, if_true, Except.ok.injEq] at h
          exact ⟨xs, p, rfl, hxs, hextras, h.symm⟩
        · simp [hws, hxs, hextras] at h
  · rintro ⟨xs, p, hws, hxs, hextras, rfl⟩
    simp only [hws, hxs, hextras, if_true]

/-- Words that make a change, added to a command line, change its arguments. -/
theorem Arguments.read_append {environment : List (String × String)} {ws vs : List String}
    {a : Arguments} {ys : List Word} {c : Change} (hmark : endMark ∉ ws)
    (hread : Arguments.read environment ws = .ok a) (hvs : classifyAll vs = .ok ys)
    (hys : ys.head? ≠ some .ending)
    (hchange : ∀ p : Progress, p.read ys = .ok { p with changes := p.changes ++ [c] }) :
    Arguments.read environment (ws ++ vs) = .ok (a.change c) := by
  obtain ⟨xs, p, hws, hxs, hextras, rfl⟩ := Arguments.read_eq_ok_iff.mp hread
  have hall := (Progress.read_append hxs hys).trans (hchange p)
  refine Arguments.read_eq_ok_iff.mpr
    ⟨xs ++ ys, _, classifyAll_append hmark hws hvs, hall, hextras, ?_⟩
  rw [Arguments.changeAll_append]
  rfl

/-- An option without a value, added to a command line, makes its change. -/
theorem Arguments.read_switch {environment : List (String × String)} {ws : List String}
    {a : Arguments} {flag : Flag} {name : String} {c : Change} (hmark : endMark ∉ ws)
    (hread : Arguments.read environment ws = .ok a)
    (hname : classifyAll [name] = .ok [.option flag name none])
    (htakes : ¬flag.takesValue = true) (hperform : perform flag = .ok [c]) :
    Arguments.read environment (ws ++ [name]) = .ok (a.change c) := by
  refine Arguments.read_append hmark hread hname (by simp) fun p => ?_
  rw [Progress.read_perform htakes hperform, Progress.read]

/-- An option with a value, added to a command line, makes its change. -/
theorem Arguments.read_option {environment : List (String × String)} {ws : List String}
    {a : Arguments} {flag : Flag} {name text : String} {c : Change} (hmark : endMark ∉ ws)
    (hread : Arguments.read environment ws = .ok a)
    (hname : classify name = .ok (.option flag name none)) (hne : name ≠ endMark)
    (htext : classify text = .ok (.operand text)) (hvalue : text ≠ endMark)
    (htakes : flag.takesValue = true) (hchange : changeTo flag text = .ok [c]) :
    Arguments.read environment (ws ++ [name, text]) = .ok (a.change c) := by
  have hwords : classifyAll [name, text] = .ok [.option flag name none, .operand text] := by
    have hlast : classifyAll [text] = .ok [.operand text] :=
      (classifyAll_cons_eq_ok_iff hvalue).mpr ⟨_, [], htext, rfl, rfl⟩
    exact (classifyAll_cons_eq_ok_iff hne).mpr ⟨_, _, hname, hlast, rfl⟩
  refine Arguments.read_append hmark hread hwords (by simp) fun p => ?_
  have htake : p.take flag text = .ok { p with changes := p.changes ++ [c] } := by
    rw [Progress.take, hchange]
  rw [Progress.read, if_pos htakes, htake]
  simp only [Progress.read]

theorem Arguments.read_check {environment : List (String × String)} {ws : List String}
    {a : Arguments} (hmark : endMark ∉ ws) (hread : Arguments.read environment ws = .ok a) :
    Arguments.read environment (ws ++ ["--check"]) = .ok (a.change (.check true)) :=
  Arguments.read_switch hmark hread rfl (by decide) rfl

/-- The file to read is one of the words, unless it is standard input. -/
theorem Arguments.classify_input {environment : List (String × String)} {ws : List String}
    {a : Arguments} (hmark : endMark ∉ ws) (hread : Arguments.read environment ws = .ok a)
    (hinput : a.input ≠ "-") :
    a.input ∈ ws ∧ classify a.input = .ok (.operand a.input) := by
  obtain ⟨xs, p, hws, hxs, _, rfl⟩ := Arguments.read_eq_ok_iff.mp hread
  rw [Arguments.input_changeAll, Arguments.input_changeAll] at hinput ⊢
  cases hp : p.input with
  | none =>
    rw [hp] at hinput
    exact absurd rfl hinput
  | some text =>
    rcases Progress.operand_mem_of_read hxs hp with hstart | hmem
    · cases hstart
    · exact classify_of_mem hmark hws hmem

theorem Arguments.read_out {environment : List (String × String)} {ws : List String}
    {a : Arguments} (hmark : endMark ∉ ws) (hread : Arguments.read environment ws = .ok a)
    (hinput : a.input ≠ "-") :
    Arguments.read environment (ws ++ ["--out", a.input]) =
      .ok (a.change (.out (.is a.input))) := by
  have hoperand := Arguments.classify_input hmark hread hinput
  have hne : a.input ≠ endMark := fun he => hmark (he ▸ hoperand.1)
  have hchange : changeTo .out a.input = .ok [.out (.is a.input)] := by
    simp only [changeTo, if_neg hne]
  exact Arguments.read_option hmark hread rfl (by decide) hoperand.2 hne rfl hchange

/-- What a text is laid out to with the settings that are asked for. -/
def Arguments.rendering (host : Host) (a : Arguments) (text : String) : Except Failure String := do
  let _ ← LogLevel.resolve (a.logLevel.toDatum fun level => .text level.name)
  let settings ← a.renderSettings
  let octets ← octetsOf host settings a.parseSettings text
  decodeText octets

/-- What it takes for a text to be laid out. -/
theorem Arguments.rendering_eq_ok_iff {host : Host} {a : Arguments} {text rendered : String} :
    a.rendering host text = .ok rendered ↔
      ∃ n settings octets,
        LogLevel.resolve (a.logLevel.toDatum fun level => .text level.name) = .ok n ∧
        a.renderSettings = .ok settings ∧ octetsOf host settings a.parseSettings text = .ok octets ∧
        decodeText octets = .ok rendered := by
  unfold Arguments.rendering
  constructor
  · intro h
    obtain ⟨n, hlevel, h⟩ := exists_of_bind_eq_ok h
    obtain ⟨settings, hsettings, h⟩ := exists_of_bind_eq_ok h
    obtain ⟨octets, hoctets, hrendered⟩ := exists_of_bind_eq_ok h
    exact ⟨n, settings, octets, hlevel, hsettings, hoctets, hrendered⟩
  · rintro ⟨n, settings, octets, hlevel, hsettings, hoctets, hrendered⟩
    rw [hlevel, hsettings]
    simp only [bind, Except.bind, hoctets, hrendered]

/-- A document is made and handed over. -/
theorem Arguments.convert_eq_handOver (host : Host) {a : Arguments} {settings : RenderSettings}
    {text rendered : String} {octets : List UInt8}
    (hoctets : octetsOf host settings a.parseSettings text = .ok octets)
    (hrendered : decodeText octets = .ok rendered) (s : Session) :
    ∃ s', s.Noted s' ∧ a.convert host settings text s = a.handOver host text rendered s' := by
  obtain ⟨s', hnoted, hstep⟩ := tells_reformatOctets host settings a.parseSettings text s
  rw [hoctets] at hstep
  have hdecoded : renderedText octets s' = .ok rendered s' := by
    rw [renderedText, hrendered]
    rfl
  refine ⟨s', hnoted, ?_⟩
  unfold Arguments.convert
  rw [bind_of_ok hstep, bind_of_ok hdecoded]

/-- A document that is not made fails before it is handed over. -/
theorem Arguments.convert_eq_error (host : Host) {a : Arguments} {settings : RenderSettings}
    {text : String} {e : Failure}
    (hfailed : (octetsOf host settings a.parseSettings text).bind decodeText = .error e)
    (s : Session) : ∃ s', s.Noted s' ∧ a.convert host settings text s = .error e s' := by
  obtain ⟨s', hnoted, hstep⟩ := tells_reformatOctets host settings a.parseSettings text s
  unfold Arguments.convert
  cases hoctets : octetsOf host settings a.parseSettings text with
  | error e' =>
    rw [hoctets] at hstep hfailed
    cases hfailed
    exact ⟨s', hnoted, bind_of_error hstep⟩
  | ok octets =>
    rw [hoctets] at hstep hfailed
    have hdecoded : renderedText octets s' = .error e s' := by
      rw [renderedText, show decodeText octets = .error e from hfailed]
      rfl
    exact ⟨s', hnoted, (bind_of_ok hstep).trans (bind_of_error hdecoded)⟩

/-- The input is there and has a text. -/
structure Arguments.Finds (host : Host) (a : Arguments) (d : Disk) (text : String) : Prop where
  /-- The input is there. -/
  found : a.inputExists d = .ok true
  /-- The input has the text. -/
  text : a.readInput host d = .ok text

/-- A file is there and its text is read, with its line ends made one. -/
structure Arguments.Reads (a : Arguments) (d : Disk) (text : String) : Prop where
  /-- The input is a file. -/
  input : a.input ≠ "-"
  /-- The file is there. -/
  found : d.isFile (.ofString a.input) = .ok true
  /-- The file has the text. -/
  text : d.readText (.ofString a.input) = .ok text

theorem Arguments.Reads.finds {a : Arguments} {d : Disk} {text : String} (h : a.Reads d text)
    (host : Host) : a.Finds host d text where
  found := by
    rw [Arguments.inputExists, if_neg h.input, h.found]
    rfl
  text := by rw [Arguments.readInput, if_neg h.input, h.text]

/-- The journal is set up without a file. -/
theorem Arguments.configure_of_ok (host : Host) {a : Arguments} {n : Int}
    (hlog : fileName? a.logFile = none)
    (hlevel : LogLevel.resolve (a.logLevel.toDatum fun level => .text level.name) = .ok n)
    (s : Session) :
    ∃ s', s'.disk = s.disk ∧ s'.stdout = s.stdout ∧ s'.journal.file = none ∧
      a.configure host s = .ok () s' := by
  unfold Arguments.configure configureJournal
  rw [hlevel, hlog]
  exact ⟨{ s with journal := {
    level := n, style := some (if a.trace = true then .trace else .plain), file := none } },
    rfl, rfl, rfl, rfl⟩

/-- The text is read once the journal is set up, and the rest of the run depends on the settings. -/
theorem Arguments.run_of_finds (host : Host) {a : Arguments} {s mid : Session} {text : String}
    (hconfigured : a.configure host s = .ok () mid) (hfinds : a.Finds host mid.disk text) :
    a.run host s = (Run.ofExcept a.renderSettings >>= fun settings =>
      reporting host (a.convert host settings text)) mid := by
  have hget : (get : Run Session) mid = .ok mid mid := rfl
  have hfound : Run.ofExcept (a.inputExists mid.disk) mid = .ok true mid := by
    rw [hfinds.found]
    rfl
  unfold Arguments.run
  rw [bind_of_ok hconfigured, bind_of_ok hget, bind_of_ok hfound]
  simp only [Bool.not_true, Bool.false_eq_true, if_false]
  rw [bind_of_ok hget, hfinds.text]

/-- A text that can be laid out is handed over. -/
theorem Arguments.run_of_rendering (host : Host) {a : Arguments} {s : Session}
    {text rendered : String} (hlog : fileName? a.logFile = none)
    (hfinds : a.Finds host s.disk text) (hrendering : a.rendering host text = .ok rendered) :
    ∃ s', s'.disk = s.disk ∧ s'.stdout = s.stdout ∧ s'.journal.file = none ∧
      a.run host s = reporting host (a.handOver host text rendered) s' := by
  obtain ⟨n, settings, octets, hlevel, hsettings, hoctets, hrendered⟩ :=
    Arguments.rendering_eq_ok_iff.mp hrendering
  obtain ⟨mid, hdisk, hprinted, hfile, hconfigured⟩ :=
    Arguments.configure_of_ok host hlog hlevel s
  obtain ⟨s', hnoted, hconvert⟩ := Arguments.convert_eq_handOver host hoctets hrendered mid
  have hkept := hnoted.disk.eq_of_none hfile
  refine ⟨s', hkept.trans hdisk, hnoted.stdout.trans hprinted, hnoted.file.trans hfile, ?_⟩
  have hchosen : Run.ofExcept a.renderSettings mid = .ok settings mid := by
    rw [hsettings]
    rfl
  rw [Arguments.run_of_finds host hconfigured (hdisk ▸ hfinds), bind_of_ok hchosen]
  unfold reporting
  rw [hconvert]

/-- A text that cannot be laid out ends the run without success. -/
theorem Arguments.not_succeeded_of_rendering (host : Host) {a : Arguments} {s : Session}
    {text : String} (hlog : fileName? a.logFile = none) (hreads : a.Reads s.disk text)
    (hrendering : ∀ rendered, a.rendering host text ≠ .ok rendered) :
    Run.succeeded (a.run host s) = false := by
  cases hlevel : LogLevel.resolve (a.logLevel.toDatum fun level => .text level.name) with
  | error e =>
    have hfailed : a.configure host s = .error e s := by
      unfold Arguments.configure configureJournal
      rw [hlevel]
      rfl
    unfold Arguments.run
    rw [bind_of_error hfailed]
    rfl
  | ok n =>
    obtain ⟨mid, hdisk, _, _, hconfigured⟩ := Arguments.configure_of_ok host hlog hlevel s
    rw [Arguments.run_of_finds host hconfigured (hdisk ▸ hreads.finds host)]
    cases hsettings : a.renderSettings with
    | error e => rfl
    | ok settings =>
      have hchosen : Run.ofExcept (.ok settings : Except Failure RenderSettings) mid =
          .ok settings mid := rfl
      rw [bind_of_ok hchosen]
      cases hmade : (octetsOf host settings a.parseSettings text).bind decodeText with
      | ok rendered =>
        have hall : a.rendering host text = .ok rendered := by
          unfold Arguments.rendering
          rw [hlevel, hsettings]
          exact hmade
        exact absurd hall (hrendering rendered)
      | error e =>
        obtain ⟨s', _, hconvert⟩ := Arguments.convert_eq_error host hmade mid
        unfold reporting
        rw [hconvert]
        split
        · rfl
        · rfl

/-- A file that is there is read. -/
theorem Arguments.reads_of_locate {a : Arguments} {d : Disk} {location : Location} {t : String}
    (hinput : a.input ≠ "-")
    (hfile : d.locate (.ofString a.input) = .ok (.file location (Text.Utf8.octets t))) :
    a.Reads d (String.ofList (unifyLineEnds t.toList)) where
  input := hinput
  found := by rw [Disk.isFile, hfile]
  text := by
    rw [Disk.readText, Disk.read, hfile]
    simp only [decodeFileText, decodeText, Text.Utf8.text_octets, Except.map]

/-- A check succeeds when the document is the text that was read. -/
theorem Arguments.succeeded_check_iff (host : Host) {a : Arguments} {s : Session} {text : String}
    (hcheck : a.check = true) (hlog : fileName? a.logFile = none) (hreads : a.Reads s.disk text) :
    Run.succeeded (a.run host s) = true ↔ a.rendering host text = .ok text := by
  by_cases hmade : ∃ rendered, a.rendering host text = .ok rendered
  · obtain ⟨rendered, hrendering⟩ := hmade
    obtain ⟨mid, _, _, _, hrun⟩ :=
      Arguments.run_of_rendering host hlog (hreads.finds host) hrendering
    obtain ⟨s', _, hends⟩ := Arguments.tells_handOver host hcheck text rendered mid
    rw [hrun, hrendering, Except.ok.injEq]
    unfold reporting
    rw [hends]
    by_cases hsame : rendered = text
    · simp [hsame, Run.result, Run.succeeded, Status.code]
    · simp [hsame, Run.result, Run.succeeded, Status.code]
  · have hnone : ∀ rendered, a.rendering host text ≠ .ok rendered :=
      fun rendered he => hmade ⟨rendered, he⟩
    rw [Arguments.not_succeeded_of_rendering host hlog hreads hnone]
    exact iff_of_false Bool.false_ne_true (hnone text)

/-- A text that is laid out takes the place of what the file holds. -/
theorem Arguments.run_in_place (host : Host) {a : Arguments} {s : Session} {location : Location}
    {old : List UInt8} {text rendered : String} (hcheck : a.check = false)
    (hlog : fileName? a.logFile = none) (hout : fileName? a.out = some a.input)
    (hreads : a.Reads s.disk text)
    (hfile : s.disk.locate (.ofString a.input) = .ok (.file location old))
    (hrendering : a.rendering host text = .ok rendered) :
    ∃ s', a.run host s = .ok .success s' ∧
      s'.disk = s.disk.setFile location (Text.Utf8.octets rendered) := by
  obtain ⟨mid, hdisk, _, hjournal, hrun⟩ :=
    Arguments.run_of_rendering host hlog (hreads.finds host) hrendering
  have hwrite : mid.disk.write (.ofString a.input) (Text.Utf8.octets rendered) =
      .ok (s.disk.setFile location (Text.Utf8.octets rendered)) := by
    rw [hdisk, Disk.write_of_locate hfile]
  rcases Arguments.handOver_cases host hcheck hout text rendered mid with
    ⟨d, s', hd, hnoted, hends⟩ | ⟨e, failure, he, _⟩
  · rw [hwrite, Except.ok.injEq] at hd
    refine ⟨s', ?_, (hnoted.disk.eq_of_none hjournal).trans hd.symm⟩
    rw [hrun, reporting, hends]
  · rw [hwrite] at he
    cases he

/-- A file that is reformatted in place is kept when the document is what it holds. -/
theorem Arguments.kept_iff (host : Host) {a : Arguments} {s : Session} {location : Location}
    {t text : String} (hcheck : a.check = false) (hlog : fileName? a.logFile = none)
    (hout : fileName? a.out = some a.input) (hreads : a.Reads s.disk text)
    (hfile : s.disk.locate (.ofString a.input) = .ok (.file location (Text.Utf8.octets t))) :
    (Run.succeeded (a.run host s) = true ∧
      (Run.left (a.run host s)).disk.file? location = s.disk.file? location) ↔
    a.rendering host text = .ok t := by
  by_cases hmade : ∃ rendered, a.rendering host text = .ok rendered
  · obtain ⟨rendered, hrendering⟩ := hmade
    obtain ⟨s', hrun, hdisk⟩ :=
      Arguments.run_in_place host hcheck hlog hout hreads hfile hrendering
    have hnow : s'.disk.file? location = some (Text.Utf8.octets rendered) := by
      rw [hdisk, Disk.file?_setFile, if_pos rfl]
    rw [hrun, hrendering, Except.ok.injEq]
    change (_ ∧ s'.disk.file? location = _) ↔ _
    rw [hnow, Disk.file?_of_locate hfile, Option.some.injEq, Text.Utf8.octets_inj]
    exact and_iff_right rfl
  · have hnone : ∀ rendered, a.rendering host text ≠ .ok rendered :=
      fun rendered he => hmade ⟨rendered, he⟩
    rw [Arguments.not_succeeded_of_rendering host hlog hreads hnone]
    exact iff_of_false (fun h => Bool.false_ne_true h.1) (hnone t)

/-- A command line ends with a status of zero when it is to check only. -/
def PassesCheck (host : Host) (disk : Disk) (words : List String) : Prop :=
  Run.succeeded (run host (words ++ ["--check"]) { disk }) = true

/-- A command line ends with a status of zero and leaves the file at a place as it is when it is to
write to a file of a name. -/
def KeepsFile (host : Host) (disk : Disk) (words : List String) (name : String)
    (location : Location) : Prop :=
  Run.succeeded (run host (words ++ ["--out", name]) { disk }) = true ∧
    (Run.left (run host (words ++ ["--out", name]) { disk })).disk.file? location =
      disk.file? location

/-- An empty path leads to no file. -/
theorem ne_empty_of_locate {d : Disk} {name : String} {location : Location} {octets : List UInt8}
    (h : d.locate (.ofString name) = .ok (.file location octets)) : name ≠ "" := by
  intro he
  have hempty : d.locate (.ofString "") = .ok .directory := rfl
  rw [he, hempty] at h
  cases h

/-- A check passes exactly if the document is the text of the file with its line ends made one.
Reformatting in place keeps the file exactly if the document is the text that the file holds. So the
two agree if the file has no carriage return; if it has one, they agree only by both failing, and
never both hold. -/
theorem check_iff_kept (host : Host) (disk : Disk) {words : List String} {a : Arguments}
    {location : Location} {t : String}
    (hread : Arguments.read host.environment words = .ok a) (hmark : endMark ∉ words)
    (hinput : a.input ≠ "-") (hcheck : a.check = false) (hlog : fileName? a.logFile = none)
    (hfile : disk.locate (.ofString a.input) = .ok (.file location (Text.Utf8.octets t))) :
    (PassesCheck host disk words ↔
      a.rendering host (String.ofList (unifyLineEnds t.toList)) =
        .ok (String.ofList (unifyLineEnds t.toList))) ∧
    (KeepsFile host disk words a.input location ↔
      a.rendering host (String.ofList (unifyLineEnds t.toList)) = .ok t) ∧
    ((PassesCheck host disk words ↔ KeepsFile host disk words a.input location) ↔
      '\r' ∉ t.toList ∨
        ¬PassesCheck host disk words ∧ ¬KeepsFile host disk words a.input location) := by
  have hwarned := noted_warnOfVariables host { disk }
  have hdisk : (warnOfVariables host { disk }).disk = disk := hwarned.disk.eq_of_none rfl
  rw [← hdisk] at hfile
  have hpasses : PassesCheck host disk words ↔
      a.rendering host (String.ofList (unifyLineEnds t.toList)) =
        .ok (String.ofList (unifyLineEnds t.toList)) := by
    let b := a.change (.check true)
    have hreads : b.Reads _ _ := Arguments.reads_of_locate hinput hfile
    rw [PassesCheck, run_of_read host (Arguments.read_check hmark hread)]
    exact Arguments.succeeded_check_iff host rfl hlog hreads
  have hkeeps : KeepsFile host disk words a.input location ↔
      a.rendering host (String.ofList (unifyLineEnds t.toList)) = .ok t := by
    let b := a.change (.out (.is a.input))
    have hreads : b.Reads _ _ := Arguments.reads_of_locate hinput hfile
    have hout : fileName? b.out = some b.input := by
      have hne := ne_empty_of_locate hfile
      simp [b, Arguments.change, fileName?, Value.get?, hne]
    have hwrites : b.check = false := hcheck
    have hkept := Arguments.kept_iff host hwrites hlog hout hreads hfile
    rw [hdisk] at hkept
    rw [KeepsFile, run_of_read host (Arguments.read_out hmark hread hinput)]
    exact hkept
  refine ⟨hpasses, hkeeps, ?_⟩
  rw [hpasses, hkeeps]
  by_cases hreturn : '\r' ∈ t.toList
  · have hne : String.ofList (unifyLineEnds t.toList) ≠ t := by
      intro he
      have hlist := congrArg String.toList he
      rw [String.toList_ofList, unifyLineEnds_eq_self_iff] at hlist
      exact hlist hreturn
    grind
  · have hsame : String.ofList (unifyLineEnds t.toList) = t := by
      rw [(unifyLineEnds_eq_self_iff _).mpr hreturn, String.ofList_toList]
    rw [hsame]
    exact iff_of_true Iff.rfl (.inl hreturn)

/-- A document that ends its lines with a carriage return and a line feed passes its check, and is
not kept. -/
theorem check_iff_kept_returns :
    ∃ (host : Host) (disk : Disk) (a : Arguments),
      Arguments.read host.environment ["f.md", "--width", "20"] = .ok a ∧
      endMark ∉ ["f.md", "--width", "20"] ∧ a.input ≠ "-" ∧ a.check = false ∧
      fileName? a.logFile = none ∧
      disk.locate (.ofString a.input) =
        .ok (.file ["", "f.md"] (Text.Utf8.octets "a\r\n\r\n")) ∧
      PassesCheck host disk ["f.md", "--width", "20"] ∧
      ¬KeepsFile host disk ["f.md", "--width", "20"] a.input ["", "f.md"] := by
  have hfacts : ∃ (host : Host) (disk : Disk) (a : Arguments),
      Arguments.read host.environment ["f.md", "--width", "20"] = .ok a ∧ a.input ≠ "-" ∧
      a.check = false ∧ fileName? a.logFile = none ∧
      disk.locate (.ofString a.input) =
        .ok (.file ["", "f.md"] (Text.Utf8.octets "a\r\n\r\n")) ∧
      a.rendering host (String.ofList (unifyLineEnds "a\r\n\r\n".toList)) =
        .ok (String.ofList (unifyLineEnds "a\r\n\r\n".toList)) :=
    ⟨{ tokenizer := fun _ => .list [.mk .paragraph "" {} [.mk .text "a" {} []]]
       inventory := ⟨[("mistune", "3.4.0")], ["mistune"]⟩, accepts := fun _ _ => true },
      { files := [(["", "f.md"], Text.Utf8.octets "a\r\n\r\n")] },
      { input := "f.md", width := .is 20 }, rfl, by decide, rfl, rfl, rfl, rfl⟩
  obtain ⟨host, disk, a, hread, hinput, hcheck, hlog, hfile, hrendering⟩ := hfacts
  have hmark : endMark ∉ ["f.md", "--width", "20"] := by decide
  have hboth := check_iff_kept host disk hread hmark hinput hcheck hlog hfile
  refine ⟨host, disk, a, hread, hmark, hinput, hcheck, hlog, hfile, hboth.1.mpr hrendering, ?_⟩
  intro hkept
  have hkept := hboth.2.1.mp hkept
  rw [hrendering, Except.ok.injEq] at hkept
  exact absurd hkept (by decide)

end MarkdownLayout.CommandLine
