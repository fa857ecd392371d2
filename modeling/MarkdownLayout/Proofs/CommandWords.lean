import MarkdownLayout.Proofs.InPlace

/-!
# Settings as words of a command line

All choices of a layout and of reading can be asked for by words of a command line. Only a width has
a limit: numbers of more than `Text.maxDigits` digits are not read. A name to write to is put into
the same word as its option, so that it may begin with a dash. The main statement is
`Arguments.exists_read_wordsFor`.
-/

namespace MarkdownLayout

namespace Text

/-- A digit of ASCII has the value that it writes. -/
theorem digitValue?_of_isDigit {c : Char} (h : c.isDigit = true) :
    digitValue? c = some (c.toNat - '0'.toNat) := by
  have hrange := Char.isDigit_iff_toNat.mp h
  have hfirst : (48 ≤ c.toNat && c.toNat ≤ 48 + 9) = true := by
    simpa using hrange
  rw [digitValue?, decimalZeros, List.find?_cons, hfirst]
  rfl

/-- Digits of ASCII are read one by one. -/
theorem readDigits?_of_isDigit {cs : List Char} (hne : cs ≠ []) (h : ∀ c ∈ cs, c.isDigit = true) :
    readDigits? cs = some (cs.map fun c => c.toNat - '0'.toNat) := by
  induction cs with
  | nil => exact absurd rfl hne
  | cons c rest ih =>
    obtain ⟨hc, hrest⟩ := List.forall_mem_cons.mp h
    cases rest with
    | nil => rw [readDigits?, digitValue?_of_isDigit hc]; rfl
    | cons d rest =>
      have hd : d ≠ '_' := fun he => absurd (hrest d List.mem_cons_self) (he ▸ by decide)
      rw [readDigits?, digitValue?_of_isDigit hc, ih (List.cons_ne_nil d rest) hrest]
      · rfl
      · simp
      · intro tail he
        exact hd (List.cons.inj he).1

/-- Nothing is trimmed from characters that are kept. -/
theorem trimBoth_eq_self {drop : Char → Bool} {cs : List Char} (h : ∀ c ∈ cs, drop c = false) :
    trimBoth drop cs = cs := by
  have hfront : cs.dropWhile drop = cs :=
    dropWhile_eq_self fun c hc => h c (List.mem_of_mem_head? hc)
  have hback : cs.reverse.dropWhile drop = cs.reverse :=
    dropWhile_eq_self fun c hc => h c (List.mem_reverse.mp (List.mem_of_mem_head? hc))
  rw [trimBoth, hfront, hback, List.reverse_reverse]

/-- A digit of ASCII is not blank. -/
theorem isNumberBlank_of_isDigit {c : Char} (h : c.isDigit = true) : isNumberBlank c = false := by
  obtain ⟨hlow, hhigh⟩ := Char.isDigit_iff_toNat.mp h
  have hlow : 48 ≤ c.toNat := hlow
  have hhigh : c.toNat ≤ 57 := hhigh
  have hblank : isBlank c = false := by
    rw [isBlank, List.any_eq_false]
    intro range hrange
    simp only [blankRanges, List.mem_cons, List.not_mem_nil, or_false] at hrange
    simp only [Bool.and_eq_true, decide_eq_true_eq]
    rcases hrange with rfl | rfl | rfl | rfl | rfl | rfl | rfl | rfl | rfl | rfl <;> dsimp only <;>
      omega
  rw [isNumberBlank, hblank, Bool.false_and]

/-- A number is read as it is written, if it is not too long. -/
theorem readInteger?_toString {n : Nat} (h : (toString n).length ≤ maxDigits) :
    readInteger? (toString n) = some (n : Int) := by
  have hdigits : ∀ c ∈ Nat.toDigits 10 n, c.isDigit = true := fun c hc =>
    Nat.isDigit_of_mem_toDigits (by decide) (by decide) hc
  have hne : Nat.toDigits 10 n ≠ [] := Nat.toDigits_ne_nil
  have hlength : (Nat.toDigits 10 n).length ≤ maxDigits := by
    rwa [Nat.toString_eq_repr, ← String.length_toList, Nat.toList_repr] at h
  have hvalue : ofDigits ((Nat.toDigits 10 n).map fun c => c.toNat - '0'.toNat) = n := by
    rw [ofDigits, List.foldl_map]
    exact Nat.ofDigitChars_toDigits (by decide) (by decide)
  have hnatural : readNatural? (Nat.toDigits 10 n) = some n := by
    rw [readNatural?, readDigits?_of_isDigit hne hdigits]
    simp only [List.length_map, if_pos hlength, hvalue]
  have htext : trimBoth isNumberBlank (toString n).toList = Nat.toDigits 10 n := by
    rw [Nat.toString_eq_repr, Nat.toList_repr]
    exact trimBoth_eq_self fun c hc => isNumberBlank_of_isDigit (hdigits c hc)
  rw [readInteger?, htext]
  -- A digit is no sign.
  split
  · rename_i rest hsign
    exact absurd (hdigits '-' (by rw [hsign]; exact List.mem_cons_self)) (by decide)
  · rename_i rest hsign
    exact absurd (hdigits '+' (by rw [hsign]; exact List.mem_cons_self)) (by decide)
  · rw [hnatural]
    rfl

end Text

namespace CommandLine

theorem readWidth_toString {n : Nat} (h : (toString n).length ≤ Text.maxDigits) :
    readWidth (toString n) = .ok n := by
  rw [readWidth, Text.readInteger?_toString h]
  simp

theorem dash_notMem_toString (n : Nat) : '-' ∉ (toString n).toList := by
  intro hdash
  rw [Nat.toString_eq_repr, Nat.toList_repr] at hdash
  exact absurd (Nat.isDigit_of_mem_toDigits (by decide) (by decide) hdash) (by decide)

/-- A number is something to work on, and not an option. -/
theorem classify_toString (n : Nat) : classify (toString n) = .ok (.operand (toString n)) := by
  unfold classify
  split
  · rfl
  · rfl
  · rename_i he
    exact absurd (by rw [he]; exact List.mem_cons_self) (dash_notMem_toString n)
  · rfl

/-- A word that holds an equals sign is no name of an option. -/
theorem ofName?_eq_none {text : String} (h : '=' ∈ text.toList) : Flag.ofName? text = none := by
  have htable : ∀ entry ∈ Flag.table, '=' ∉ entry.1.toList := by decide
  rw [Flag.ofName?, List.lookup_eq_none_iff]
  intro entry hentry
  rw [bne_iff_ne]
  rintro rfl
  exact htable entry hentry h

/-- A name to write to may stand in the same word as its option. -/
theorem classify_out (name : String) :
    classify ("--out=" ++ name) = .ok (.option .out "--out" (some name)) := by
  have htext : ("--out=" ++ name).toList = ['-', '-', 'o', 'u', 't', '='] ++ name.toList := by
    rw [String.toList_append]
    rfl
  have hnone : Flag.ofName? ("--out=" ++ name) = none := ofName?_eq_none (by rw [htext]; simp)
  have hsplit : splitValue ("--out=" ++ name) = some ("--out", name) := by
    rw [splitValue, htext]
    show some (String.ofList ['-', '-', 'o', 'u', 't'], String.ofList name.toList) = _
    rw [String.ofList_toList]
  have hexact : exactOption? ("--out=" ++ name) = some (.option .out "--out" (some name)) := by
    rw [exactOption?, hnone]
    simp only [hsplit]
    rfl
  unfold classify
  rw [hexact, htext]
  rfl

/-- Words without an end mark that are followed with some arguments. -/
structure Arguments.Follows (environment : List (String × String)) (ws : List String)
    (a : Arguments) : Prop where
  /-- There is no end mark. -/
  mark : endMark ∉ ws
  /-- The words are read. -/
  read : Arguments.read environment ws = .ok a

namespace Arguments.Follows

variable {environment : List (String × String)} {ws : List String} {a : Arguments} {flag : Flag}
  {name text : String} {c : Change}

/-- An option with a value comes after the words. -/
theorem option (h : Follows environment ws a) (hname : classify name = .ok (.option flag name none))
    (hne : name ≠ endMark) (htext : classify text = .ok (.operand text)) (hvalue : text ≠ endMark)
    (htakes : flag.takesValue = true) (hchange : changeTo flag text = .ok [c]) :
    Follows environment (ws ++ [name, text]) (a.change c) := by
  refine ⟨?_, Arguments.read_option h.mark h.read hname hne htext hvalue htakes hchange⟩
  simp [h.mark, hne.symm, hvalue.symm]

/-- An option without a value comes after the words, unless something is on that it turns off. -/
theorem switch (h : Follows environment ws a) {b : Arguments} {on : Bool}
    (hname : classifyAll [name] = .ok [.option flag name none]) (hne : name ≠ endMark)
    (htakes : ¬flag.takesValue = true) (hperform : perform flag = .ok [c])
    (hon : on = true → b = a) (hoff : on = false → b = a.change c) :
    Follows environment (ws ++ if on then [] else [name]) b := by
  cases on with
  | true =>
    rw [hon rfl]
    simpa using h
  | false =>
    rw [hoff rfl]
    refine ⟨?_, Arguments.read_switch h.mark h.read hname htakes hperform⟩
    simp [h.mark, hne.symm]

/-- A name to write to comes after the words. -/
theorem out (h : Follows environment ws a) (hname : name ≠ endMark) :
    Follows environment (ws ++ ["--out=" ++ name]) (a.change (.out (.is name))) := by
  have hlength : ("--out=" ++ name).length ≠ endMark.length := by
    rw [String.length_append]
    show 6 + name.length ≠ 2
    omega
  have hne : "--out=" ++ name ≠ endMark := fun he => hlength (by rw [he])
  have hword : classifyAll ["--out=" ++ name] = .ok [.option .out "--out" (some name)] :=
    (classifyAll_cons_eq_ok_iff hne).mpr ⟨_, [], classify_out name, rfl, rfl⟩
  refine ⟨by simp [h.mark, hne.symm],
    Arguments.read_append h.mark h.read hword (by simp) fun p => ?_⟩
  have htake : p.take .out name = .ok { p with changes := p.changes ++ [.out (.is name)] } := by
    simp only [Progress.take, changeTo, if_neg hname]
  have htakes : Flag.out.takesValue = true := rfl
  rw [Progress.read, if_pos htakes, htake]
  simp only [Progress.read]

end Arguments.Follows

/-- The words that ask for settings, and for a file to write to when one is named. -/
def wordsFor (settings : RenderSettings) (parse : ParseSettings) (out : Option String) :
    List String :=
  ["--width", toString settings.width] ++ ["--ordered-markers", settings.markers.name] ++
    (if settings.escapeFencedCode then [] else ["--no-escape-fenced-code"]) ++
    (if parse.preserveHtml then [] else ["--no-preserve-html"]) ++
    (out.map ("--out=" ++ ·)).toList

/-- Arguments that ask for standard input to be laid out with some settings, without a check and
without a file for the journal. -/
structure Arguments.AsksFor (a : Arguments) (settings : RenderSettings) (parse : ParseSettings) :
    Prop where
  /-- Standard input is read. -/
  input : a.input = "-"
  /-- The width of lines. -/
  width : a.width = .is settings.width
  /-- How numbered items are marked. -/
  markers : a.markers = .is settings.markers
  /-- Whether fenced code is escaped. -/
  escapeFencedCode : a.escapeFencedCode = settings.escapeFencedCode
  /-- Whether raw HTML is kept. -/
  preserveHtml : a.preserveHtml = parse.preserveHtml
  /-- The document is handed over. -/
  check : a.check = false
  /-- The journal has a level. -/
  logLevel : a.logLevel ≠ .blank
  /-- The journal has no file. -/
  logFile : fileName? a.logFile = none

/-- The words for settings ask for them, in an environment that changes nothing. -/
theorem Arguments.exists_read_wordsFor {environment : List (String × String)}
    (henvironment : variableChanges environment = []) {settings : RenderSettings}
    (hwidth : (toString settings.width).length ≤ Text.maxDigits) (parse : ParseSettings)
    {out : Option String} (hout : ∀ name ∈ out, name ≠ "" ∧ name ≠ endMark) :
    ∃ a, Arguments.read environment (wordsFor settings parse out) = .ok a ∧
      a.AsksFor settings parse ∧ fileName? a.out = out := by
  have hbase : Follows environment [] {} := by
    refine ⟨by simp, Arguments.read_eq_ok_iff.mpr ⟨[], {}, rfl, rfl, rfl, ?_⟩⟩
    rw [henvironment]
    rfl
  have hnumber : toString settings.width ≠ endMark := fun he =>
    dash_notMem_toString settings.width (by rw [he]; decide)
  have hchange : changeTo .width (toString settings.width) = .ok [.width (.is settings.width)] := by
    simp only [changeTo, if_neg hnumber, readWidth_toString hwidth]
  obtain ⟨hmark, hoperand, hmarkers⟩ : settings.markers.name ≠ endMark ∧
      classify settings.markers.name = .ok (.operand settings.markers.name) ∧
      changeTo .orderedMarkers settings.markers.name = .ok [.markers (.is settings.markers)] := by
    cases settings.markers <;> exact ⟨by decide, rfl, rfl⟩
  have hwidened : Follows environment ["--width", toString settings.width]
      { width := .is settings.width } :=
    hbase.option rfl (by decide) (classify_toString _) hnumber rfl hchange
  have hmarked : Follows environment
      (["--width", toString settings.width] ++ ["--ordered-markers", settings.markers.name])
      { width := .is settings.width, markers := .is settings.markers } :=
    hwidened.option rfl (by decide) hoperand hmark rfl hmarkers
  have hescaped : Follows environment
      (["--width", toString settings.width] ++ ["--ordered-markers", settings.markers.name] ++
        if settings.escapeFencedCode then [] else ["--no-escape-fenced-code"])
      { width := .is settings.width, markers := .is settings.markers,
        escapeFencedCode := settings.escapeFencedCode } :=
    hmarked.switch rfl (by decide) (by decide) rfl (fun hon => by rw [hon])
      (fun hoff => by rw [hoff]; rfl)
  have hpreserved : Follows environment (wordsFor settings parse none)
      { width := .is settings.width, markers := .is settings.markers,
        escapeFencedCode := settings.escapeFencedCode, preserveHtml := parse.preserveHtml } := by
    rw [wordsFor, Option.map_none, Option.toList_none, List.append_nil]
    exact hescaped.switch rfl (by decide) (by decide) rfl (fun hon => by rw [hon])
      (fun hoff => by rw [hoff]; rfl)
  cases out with
  | none => exact ⟨_, hpreserved.read, ⟨rfl, rfl, rfl, rfl, rfl, rfl, by simp, rfl⟩, rfl⟩
  | some name =>
    obtain ⟨hempty, hname⟩ := hout name rfl
    have hwords : wordsFor settings parse (some name) =
        wordsFor settings parse none ++ ["--out=" ++ name] := by
      simp [wordsFor]
    rw [hwords]
    refine ⟨_, (hpreserved.out hname).read, ⟨rfl, rfl, rfl, rfl, rfl, rfl, ?_, rfl⟩, ?_⟩
    · simp [Arguments.change]
    · simp [Arguments.change, fileName?, Value.get?, hempty]

end CommandLine

end MarkdownLayout
