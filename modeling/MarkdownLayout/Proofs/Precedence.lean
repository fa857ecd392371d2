import Mathlib.Data.List.Forall2
import MarkdownLayout.Proofs.OptionNames

/-!
# Where settings come from

Arguments arise by changes: those of the environment are made first and those of the command line
after them, in the order of its words. `exists_resolution` says what this comes to for each setting
by itself. The last use of the setting's own option decides; where there is none, the setting's own
variable does, if its value is valid; otherwise the built-in value stands. A variable that is set on
top of others changes nothing but its own setting, and not that either if its value is not valid or
the option is used.

The value of an option is read like that of a variable, with one exception: an end mark in the same
word as the option is no value. It leaves a blank in place of one, whatever the option asks for, and
hides the variable all the same.
-/

namespace MarkdownLayout.CommandLine

namespace Setting

/-- What arguments hold for a setting. -/
def Held : Setting → Type
  | .out | .logFile => Option (Value String)
  | .width => Value Nat
  | .markers => Value MarkerStyle
  | .logLevel => Value LogLevel
  | .escapeFencedCode | .preserveHtml | .check | .trace => Bool

/-- What is held for a setting that nothing changes. -/
def initial : (setting : Setting) → setting.Held
  | .out => none
  | .width => Value.is 65
  | .markers => Value.is MarkerStyle.fixed
  | .escapeFencedCode => true
  | .preserveHtml => true
  | .check => false
  | .logLevel => Value.is LogLevel.warning
  | .logFile => none
  | .trace => false

/-- The option of a setting. -/
def flag : Setting → Flag
  | .out => .out
  | .width => .width
  | .markers => .orderedMarkers
  | .escapeFencedCode => .noEscapeFencedCode
  | .preserveHtml => .noPreserveHtml
  | .check => .check
  | .logLevel => .logLevel
  | .logFile => .logFile
  | .trace => .trace

/-- The variable of a setting. -/
def ownVariable : Setting → String
  | .out => "MDREFLOW_OUT"
  | .width => "MDREFLOW_WIDTH"
  | .markers => "MDREFLOW_ORDERED_MARKERS"
  | .escapeFencedCode => "MDREFLOW_ESCAPE_FENCED_CODE"
  | .preserveHtml => "MDREFLOW_PRESERVE_HTML"
  | .check => "MDREFLOW_CHECK"
  | .logLevel => "MDREFLOW_LOG_LEVEL"
  | .logFile => "MDREFLOW_LOG_FILE"
  | .trace => "MDREFLOW_TRACE"

/-- What a text stands for as the value of a setting, if it is valid: a whole number that is not
below zero, one of the names to choose from, which are upper-case for a level, any text for a file,
and yes or no for all else. -/
def ofText? (text : String) : (setting : Setting) → Option setting.Held
  | .out => some (some (Value.is text))
  | .width => (Text.readInteger? text).bind fun n => if 0 ≤ n then some (Value.is n.toNat) else none
  | .markers => (MarkerStyle.ofName? text).map Value.is
  | .escapeFencedCode => some (turnsOn text)
  | .preserveHtml => some (turnsOn text)
  | .check => some (turnsOn text)
  | .logLevel => (LogLevel.ofName? (Text.upper text)).map Value.is
  | .logFile => some (some (Value.is text))
  | .trace => some (turnsOn text)

/-- What the variable of a setting stands for, if it is set and valid. -/
def ofVariable? (environment : List (String × String)) (setting : Setting) : Option setting.Held :=
  (environment.lookup setting.ownVariable).bind fun text => setting.ofText? text

/-- What a blank value stands for, if a setting can have one. -/
def ofBlank? : (setting : Setting) → Option setting.Held
  | .out => some (some Value.blank)
  | .width => some (Value.blank : Value Nat)
  | .markers => some (Value.blank : Value MarkerStyle)
  | .logLevel => some (Value.blank : Value LogLevel)
  | .logFile => some (some Value.blank)
  | .escapeFencedCode => none
  | .preserveHtml => none
  | .check => none
  | .trace => none

/-- What an option that has no value stands for. -/
def ofSwitch? : (setting : Setting) → Option setting.Held
  | .escapeFencedCode => some false
  | .preserveHtml => some false
  | .check => some true
  | .trace => some true
  | .out => none
  | .width => none
  | .markers => none
  | .logLevel => none
  | .logFile => none

/-- What a use of the option of a setting stands for, by the text of its value. -/
def ofUse? (setting : Setting) : Option String → Option setting.Held
  | none => setting.ofSwitch?
  | some text => if setting.flag.takesValue then setting.ofText? text else none

/-- What is read from a use of the option of a setting: an end mark leaves a blank. -/
def readUse? (setting : Setting) (text : Option String) : Option setting.Held :=
  if text = some endMark then setting.ofBlank? else setting.ofUse? text

theorem flag_injective {setting other : Setting} (h : setting.flag = other.flag) :
    setting = other := by
  have hall : ∀ x ∈ Setting.all, ∀ y ∈ Setting.all, x.flag = y.flag → x = y := by decide
  exact hall setting (mem_all setting) other (mem_all other) h

theorem variableName_key (setting : Setting) : variableName setting.key = setting.ownVariable := by
  cases setting <;> decide +kernel

/-- An end mark never stands for the blank that it leaves. -/
theorem ofBlank?_ne_ofUse? {setting : Setting} {value : setting.Held}
    (h : setting.ofBlank? = some value) : setting.ofUse? (some endMark) ≠ some value := by
  intro hvalue
  cases setting
  case out | logFile =>
    cases h
    cases hvalue
  case width | markers | logLevel => cases hvalue
  all_goals cases h

end Setting

/-- What arguments hold for each setting. -/
def Arguments.held (a : Arguments) : (setting : Setting) → setting.Held
  | .out => a.out
  | .width => a.width
  | .markers => a.markers
  | .escapeFencedCode => a.escapeFencedCode
  | .preserveHtml => a.preserveHtml
  | .check => a.check
  | .logLevel => a.logLevel
  | .logFile => a.logFile
  | .trace => a.trace

/-- The setting that is changed. -/
def Change.setting : Change → Setting
  | .out _ => .out
  | .width _ => .width
  | .markers _ => .markers
  | .escapeFencedCode _ => .escapeFencedCode
  | .preserveHtml _ => .preserveHtml
  | .check _ => .check
  | .logLevel _ => .logLevel
  | .logFile _ => .logFile
  | .trace _ => .trace

/-- What is held for the setting after the change. -/
def Change.held : (c : Change) → c.setting.Held
  | .out value => some value
  | .width value => value
  | .markers value => value
  | .escapeFencedCode on => on
  | .preserveHtml on => on
  | .check on => on
  | .logLevel value => value
  | .logFile value => some value
  | .trace on => on

/-- A change is made to its own setting and to no other. -/
theorem Arguments.held_change (a : Arguments) (c : Change) (setting : Setting) :
    (a.change c).held setting = if h : c.setting = setting then h ▸ c.held else a.held setting := by
  cases c <;> cases setting <;> rfl

theorem Arguments.held_change_self (a : Arguments) (c : Change) :
    (a.change c).held c.setting = c.held := by
  rw [Arguments.held_change, dif_pos rfl]

theorem Arguments.held_change_of_ne (a : Arguments) {c : Change} {setting : Setting}
    (h : c.setting ≠ setting) : (a.change c).held setting = a.held setting := by
  rw [Arguments.held_change, dif_neg h]

/-- A use of an option on a command line. -/
structure Use where
  /-- The option. -/
  flag : Flag
  /-- The text of its value, if it has one. -/
  text : Option String
  deriving DecidableEq, Repr

/-- The uses of options among the words of a command line, in order. -/
inductive Uses : List String → List Use → Prop
  /-- There are no words. -/
  | nil : Uses [] []
  /-- The mark ends the options. -/
  | ended {rest : List String} : Uses (endMark :: rest) []
  /-- A word names no option. -/
  | plain {w : String} {ws : List String} {uses : List Use} :
    w ≠ endMark → (∀ flag attached, ¬Names flag w attached) → Uses ws uses → Uses (w :: ws) uses
  /-- An option has its value in the same word. -/
  | attached {flag : Flag} {w text : String} {ws : List String} {uses : List Use} :
    Names flag w (some text) → Uses ws uses → Uses (w :: ws) (⟨flag, some text⟩ :: uses)
  /-- An option has its value in the next word. -/
  | separate {flag : Flag} {w text : String} {ws : List String} {uses : List Use} :
    Names flag w none → flag.takesValue = true → Uses ws uses →
    Uses (w :: text :: ws) (⟨flag, some text⟩ :: uses)
  /-- An option has no value. -/
  | switch {flag : Flag} {w : String} {ws : List String} {uses : List Use} :
    Names flag w none → flag.takesValue = false → Uses ws uses →
      Uses (w :: ws) (⟨flag, none⟩ :: uses)

/-- The last use of an option. -/
def lastUse (flag : Flag) (uses : List Use) : Option Use :=
  (uses.filter fun use => use.flag = flag).getLast?

/-- A word names one option at most, in one way. -/
theorem Names.unique {flag other : Flag} {w : String} {attached behind : Option String}
    (h : Names flag w attached) (ho : Names other w behind) : flag = other ∧ attached = behind := by
  obtain ⟨name, hname⟩ := exists_classify_iff.mpr h
  obtain ⟨named, hnamed⟩ := exists_classify_iff.mpr ho
  rw [hname] at hnamed
  cases hnamed
  exact ⟨rfl, rfl⟩

/-- The end mark names no option. -/
theorem not_names_endMark {flag : Flag} {attached : Option String} :
    ¬Names flag endMark attached := by
  intro h
  obtain ⟨name, hname⟩ := exists_classify_iff.mpr h
  have hambiguous : (classify endMark).isOk = false := by decide
  rw [hname] at hambiguous
  cases hambiguous

/-- A command line has its uses in one way only. -/
theorem Uses.unique {ws : List String} {uses others : List Use} (h : Uses ws uses)
    (ho : Uses ws others) : uses = others := by
  induction h generalizing others with
  | nil =>
    cases ho
    rfl
  | ended =>
    cases ho with
    | ended => rfl
    | plain hne => exact absurd rfl hne
    | attached hnames | separate hnames | switch hnames => exact absurd hnames not_names_endMark
  | plain hne hnot _ ih =>
    cases ho with
    | ended => exact absurd rfl hne
    | plain _ _ hrest => exact ih hrest
    | attached hnames | separate hnames | switch hnames => exact absurd hnames (hnot _ _)
  | attached hnames _ ih =>
    cases ho with
    | ended => exact absurd hnames not_names_endMark
    | plain _ hnot => exact absurd hnames (hnot _ _)
    | attached hother hrest =>
      obtain ⟨rfl, he⟩ := hnames.unique hother
      rw [Option.some.inj he, ih hrest]
    | separate hother | switch hother => cases (hnames.unique hother).2
  | separate hnames htakes _ ih =>
    cases ho with
    | ended => exact absurd hnames not_names_endMark
    | plain _ hnot => exact absurd hnames (hnot _ _)
    | attached hother => cases (hnames.unique hother).2
    | separate hother _ hrest =>
      obtain ⟨rfl, -⟩ := hnames.unique hother
      rw [ih hrest]
    | switch hother hswitch =>
      obtain ⟨rfl, -⟩ := hnames.unique hother
      rw [htakes] at hswitch
      cases hswitch
  | switch hnames hswitch _ ih =>
    cases ho with
    | ended => exact absurd hnames not_names_endMark
    | plain _ hnot => exact absurd hnames (hnot _ _)
    | attached hother => cases (hnames.unique hother).2
    | separate hother htakes =>
      obtain ⟨rfl, -⟩ := hnames.unique hother
      rw [htakes] at hswitch
      cases hswitch
    | switch hother _ hrest =>
      obtain ⟨rfl, -⟩ := hnames.unique hother
      rw [ih hrest]

/-- The uses of options among words that have been told apart, in order. -/
inductive Taken : List Word → List Use → Prop
  /-- There are no words. -/
  | nil : Taken [] []
  /-- A word is something to work on. -/
  | operand {text : String} {xs : List Word} {uses : List Use} :
    Taken xs uses → Taken (.operand text :: xs) uses
  /-- A word is the end mark. -/
  | ending {xs : List Word} {uses : List Use} : Taken xs uses → Taken (.ending :: xs) uses
  /-- A word is strange. -/
  | strange {text : String} {xs : List Word} {uses : List Use} :
    Taken xs uses → Taken (.strange text :: xs) uses
  /-- An option has its value in the same word. -/
  | attached {flag : Flag} {name text : String} {xs : List Word} {uses : List Use} :
    Taken xs uses → Taken (.option flag name (some text) :: xs) (⟨flag, some text⟩ :: uses)
  /-- An option has its value in the next word. -/
  | separate {flag : Flag} {name text : String} {xs : List Word} {uses : List Use} :
    flag.takesValue = true → Taken xs uses →
    Taken (.option flag name none :: .operand text :: xs) (⟨flag, some text⟩ :: uses)
  /-- An option has no value. -/
  | switch {flag : Flag} {name : String} {xs : List Word} {uses : List Use} :
    flag.takesValue = false → Taken xs uses →
    Taken (.option flag name none :: xs) (⟨flag, none⟩ :: uses)

/-- The first of the words that have been told apart is the end mark, or the first word of the
command line. -/
theorem classifyAll_eq_cons {ws : List String} {x : Word} {xs : List Word}
    (h : classifyAll ws = .ok (x :: xs)) :
    (∃ rest, ws = endMark :: rest ∧ x = .ending ∧ xs = rest.map .operand) ∨
      ∃ w rest, ws = w :: rest ∧ w ≠ endMark ∧ classify w = .ok x ∧ classifyAll rest = .ok xs := by
  cases ws with
  | nil => cases h
  | cons w rest =>
    by_cases hw : w = endMark
    · rw [classifyAll, if_pos hw] at h
      cases h
      exact .inl ⟨rest, by rw [hw], rfl, rfl⟩
    · obtain ⟨word, words, hword, hwords, he⟩ := (classifyAll_cons_eq_ok_iff hw).mp h
      cases he
      exact .inr ⟨w, rest, rfl, hw, hword, hwords⟩

/-- A word that is no option names none. -/
theorem not_names_of_classify {w : String} {x : Word} (h : classify w = .ok x)
    (hx : ∀ flag name attached, x ≠ .option flag name attached) (flag : Flag)
    (attached : Option String) : ¬Names flag w attached := by
  intro hnames
  obtain ⟨name, hname⟩ := exists_classify_iff.mpr hnames
  rw [h] at hname
  exact hx flag name attached (Except.ok.inj hname)

namespace Taken

/-- Among things to work on there is no use of an option. -/
theorem eq_nil {ws : List String} {uses : List Use} (h : Taken (ws.map .operand) uses) :
    uses = [] := by
  induction ws with
  | nil =>
    cases h
    rfl
  | cons w ws ih =>
    cases h with
    | operand hrest => exact ih hrest

/-- The uses among words that have been told apart are those of the command line. -/
theorem uses {ws : List String} {xs : List Word} {uses : List Use} (h : Taken xs uses)
    (hws : classifyAll ws = .ok xs) : Uses ws uses := by
  induction h generalizing ws with
  | nil =>
    cases ws with
    | nil => exact .nil
    | cons w rest =>
      by_cases hw : w = endMark
      · rw [classifyAll, if_pos hw] at hws
        cases hws
      · obtain ⟨_, _, -, -, he⟩ := (classifyAll_cons_eq_ok_iff hw).mp hws
        cases he
  | operand hrest ih | strange hrest ih =>
    obtain ⟨_, -, he, -⟩ | ⟨w, rest, rfl, hw, hword, hall⟩ := classifyAll_eq_cons hws
    · cases he
    · exact .plain hw (not_names_of_classify hword (by simp)) (ih hall)
  | ending hrest ih =>
    obtain ⟨rest, rfl, -, rfl⟩ | ⟨w, rest, rfl, hw, hword, hall⟩ := classifyAll_eq_cons hws
    · rw [hrest.eq_nil]
      exact .ended
    · exact .plain hw (not_names_of_classify hword (by simp)) (ih hall)
  | attached hrest ih =>
    obtain ⟨_, -, he, -⟩ | ⟨w, rest, rfl, hw, hword, hall⟩ := classifyAll_eq_cons hws
    · cases he
    · exact .attached (names_of_classify hword) (ih hall)
  | separate htakes hrest ih =>
    obtain ⟨_, -, he, -⟩ | ⟨w, rest, rfl, hw, hword, hall⟩ := classifyAll_eq_cons hws
    · cases he
    · obtain ⟨_, -, he, -⟩ | ⟨v, rest, rfl, hv, hvalue, hall⟩ := classifyAll_eq_cons hall
      · cases he
      · rw [eq_of_classify hvalue]
        exact .separate (names_of_classify hword) htakes (ih hall)
  | switch hswitch hrest ih =>
    obtain ⟨_, -, he, -⟩ | ⟨w, rest, rfl, hw, hword, hall⟩ := classifyAll_eq_cons hws
    · cases he
    · exact .switch (names_of_classify hword) hswitch (ih hall)

end Taken

/-- A use of an option makes a change: of the setting of the option, to what is read from the
use. -/
def Makes (use : Use) (c : Change) : Prop :=
  c.setting.flag = use.flag ∧ c.setting.readUse? use.text = some c.held

/-- A width is any whole number that is not below zero. -/
theorem Setting.ofText?_width (text : String) :
    Setting.width.ofText? text = (readWidth text).toOption.map Value.is := by
  rw [Setting.ofText?, readWidth]
  cases Text.readInteger? text with
  | none => rfl
  | some n =>
    by_cases hn : n < 0
    · simp only [if_pos hn]
      exact if_neg (Int.not_le.mpr hn)
    · simp only [if_neg hn]
      exact if_pos (Int.not_lt.mp hn)

/-- What an option with a value does. -/
theorem exists_makes_of_changeTo {flag : Flag} {text : String} {cs : List Change}
    (htakes : flag.takesValue = true) (h : changeTo flag text = .ok cs) :
    ∃ c, cs = [c] ∧ Makes ⟨flag, some text⟩ c := by
  by_cases hmark : text = endMark
  · have hblank : some text = some endMark := by rw [hmark]
    cases flag
    case out | width | orderedMarkers | logLevel | logFile =>
      simp only [changeTo, if_pos hmark] at h
      cases h
      exact ⟨_, rfl, rfl, if_pos hblank⟩
    all_goals cases htakes
  · have hread : some text ≠ some endMark := fun he => hmark (Option.some.inj he)
    cases flag
    case out | logFile =>
      simp only [changeTo, if_neg hmark] at h
      cases h
      exact ⟨_, rfl, rfl, if_neg hread⟩
    case width =>
      simp only [changeTo, if_neg hmark] at h
      split at h <;> cases h
      rename_i n hn
      refine ⟨_, rfl, rfl, (if_neg hread).trans ((Setting.ofText?_width text).trans ?_)⟩
      rw [hn]
      rfl
    case orderedMarkers | logLevel =>
      simp only [changeTo, if_neg hmark] at h
      split at h <;> cases h
      rename_i found hfound
      exact ⟨_, rfl, rfl, (if_neg hread).trans (congrArg (Option.map Value.is) hfound)⟩
    all_goals cases htakes

/-- What an option without a value does. -/
theorem exists_makes_of_perform {flag : Flag} {cs : List Change}
    (htakes : flag.takesValue = false) (h : perform flag = .ok cs) :
    ∃ c, cs = [c] ∧ Makes ⟨flag, none⟩ c := by
  cases flag
  case help | version => cases h
  case noEscapeFencedCode | noPreserveHtml | check | trace =>
    cases h
    exact ⟨_, rfl, rfl, rfl⟩
  all_goals cases htakes

theorem Progress.exists_makes_of_take {p q : Progress} {flag : Flag} {text : String}
    (htakes : flag.takesValue = true) (h : p.take flag text = .ok q) :
    ∃ c, q.changes = p.changes ++ [c] ∧ Makes ⟨flag, some text⟩ c := by
  unfold Progress.take at h
  split at h
  · rename_i changes hchanges
    cases h
    obtain ⟨c, rfl, hc⟩ := exists_makes_of_changeTo htakes hchanges
    exact ⟨c, rfl, hc⟩
  · cases h

/-- What is read from words are the changes that the uses of options among them make. -/
theorem Progress.exists_taken {p q : Progress} {xs : List Word} (hread : p.read xs = .ok q) :
    ∃ uses cs, Taken xs uses ∧ q.changes = p.changes ++ cs ∧ List.Forall₂ Makes uses cs := by
  fun_induction Progress.read p xs with
  | case1 p =>
    cases hread
    exact ⟨[], [], .nil, by rw [List.append_nil], .nil⟩
  | case2 p text rest hnone ih | case3 p text rest hsome ih =>
    obtain ⟨uses, cs, htaken, hchanges, hmakes⟩ := ih hread
    exact ⟨uses, cs, .operand (.ending htaken), hchanges, hmakes⟩
  | case4 p text rest hrest hnone ih | case5 p text rest hrest hsome ih =>
    obtain ⟨uses, cs, htaken, hchanges, hmakes⟩ := ih hread
    exact ⟨uses, cs, .operand htaken, hchanges, hmakes⟩
  | case6 p rest hnone ih | case7 p rest hsome ih =>
    obtain ⟨uses, cs, htaken, hchanges, hmakes⟩ := ih hread
    exact ⟨uses, cs, .ending htaken, hchanges, hmakes⟩
  | case8 p text rest ih =>
    obtain ⟨uses, cs, htaken, hchanges, hmakes⟩ := ih hread
    exact ⟨uses, cs, .strange htaken, hchanges, hmakes⟩
  | case9 p flag name rest htakes text next htake ih =>
    obtain ⟨uses, cs, htaken, hchanges, hmakes⟩ := ih hread
    obtain ⟨c, hnext, hc⟩ := Progress.exists_makes_of_take htakes htake
    exact ⟨_, c :: cs, .attached htaken, by rw [hchanges, hnext, List.append_assoc]; rfl,
      .cons hc hmakes⟩
  | case11 p flag name htakes text rest next htake ih =>
    obtain ⟨uses, cs, htaken, hchanges, hmakes⟩ := ih hread
    obtain ⟨c, hnext, hc⟩ := Progress.exists_makes_of_take htakes htake
    exact ⟨_, c :: cs, .separate htakes htaken, by rw [hchanges, hnext, List.append_assoc]; rfl,
      .cons hc hmakes⟩
  | case15 p flag name rest htakes changes hperform ih =>
    obtain ⟨uses, cs, htaken, hchanges, hmakes⟩ := ih hread
    have hswitch : flag.takesValue = false := eq_false_of_ne_true htakes
    obtain ⟨c, rfl, hc⟩ := exists_makes_of_perform hswitch hperform
    exact ⟨_, c :: cs, .switch hswitch htaken, by rw [hchanges, List.append_assoc]; rfl,
      .cons hc hmakes⟩
  -- all else is an error
  | case10 | case12 | case13 | case14 | case16 => cases hread

theorem lastUse_cons (flag : Flag) (use : Use) (uses : List Use) :
    lastUse flag (use :: uses) =
      (lastUse flag uses).or (if use.flag = flag then some use else none) := by
  rw [lastUse, List.filter_cons]
  by_cases hflag : use.flag = flag
  · rw [if_pos (decide_eq_true hflag), if_pos hflag, List.getLast?_cons, ← lastUse]
    cases lastUse flag uses <;> rfl
  · rw [if_neg (by simpa using hflag), if_neg hflag, ← lastUse, Option.or_none]

/-- After changes that uses of options have made, a setting is what is read from the last use of its
option, or as it was before. -/
theorem Arguments.held_changeAll {uses : List Use} {cs : List Change}
    (h : List.Forall₂ Makes uses cs) (a : Arguments) (setting : Setting) :
    (∀ use, lastUse setting.flag uses = some use →
        setting.readUse? use.text = some ((a.changeAll cs).held setting)) ∧
      (lastUse setting.flag uses = none → (a.changeAll cs).held setting = a.held setting) := by
  induction h generalizing a with
  | nil => exact ⟨fun _ hlast => (by cases hlast), fun _ => rfl⟩
  | @cons use c uses cs hmakes _ ih =>
    obtain ⟨hlast, hnone⟩ := ih (a.change c)
    rw [lastUse_cons, Arguments.changeAll_cons]
    cases hlater : lastUse setting.flag uses with
    | some later =>
      refine ⟨fun found hfound => ?_, fun hfound => (by cases hfound)⟩
      cases hfound
      exact hlast later hlater
    | none =>
      rw [Option.none_or, hnone hlater]
      by_cases hflag : use.flag = setting.flag
      · rw [if_pos hflag]
        obtain rfl := Setting.flag_injective (hmakes.1.trans hflag)
        refine ⟨fun found hfound => ?_, fun hfound => (by cases hfound)⟩
        cases hfound
        rw [Arguments.held_change_self]
        exact hmakes.2
      · rw [if_neg hflag]
        refine ⟨fun _ hfound => (by cases hfound),
          fun _ => Arguments.held_change_of_ne a fun he => ?_⟩
        rw [← he] at hflag
        exact hflag hmakes.1.symm

theorem Setting.fromVariables_eq (environment : List (String × String)) (setting : Setting) :
    setting.fromVariables environment =
      (environment.lookup setting.ownVariable).map fun text => setting.changeBy text := by
  rw [Setting.fromVariables, variableValue?, Setting.variableName_key]

/-- The value of a variable changes the setting to what it stands for, or it is not valid and stands
for nothing. -/
theorem Setting.changeBy_cases (text : String) (setting : Setting) :
    (∃ c, setting.changeBy text = .ok c ∧ c.setting = setting ∧
      c.setting.ofText? text = some c.held) ∨
      ∃ fault, setting.changeBy text = .error fault ∧ setting.ofText? text = none := by
  cases setting
  case width =>
    rw [Setting.changeBy, Setting.ofText?_width]
    cases hwidth : readWidth text with
    | ok n =>
      refine .inl ⟨_, rfl, rfl, (Setting.ofText?_width text).trans ?_⟩
      rw [hwidth]
      rfl
    | error fault => exact .inr ⟨_, rfl, rfl⟩
  case markers =>
    rw [Setting.changeBy]
    cases hfound : MarkerStyle.ofName? text with
    | some style => exact .inl ⟨_, rfl, rfl, congrArg (Option.map Value.is) hfound⟩
    | none => exact .inr ⟨_, rfl, congrArg (Option.map Value.is) hfound⟩
  case logLevel =>
    rw [Setting.changeBy]
    cases hfound : LogLevel.ofName? (Text.upper text) with
    | some level => exact .inl ⟨_, rfl, rfl, congrArg (Option.map Value.is) hfound⟩
    | none => exact .inr ⟨_, rfl, congrArg (Option.map Value.is) hfound⟩
  all_goals exact .inl ⟨_, rfl, rfl, rfl⟩

/-- After at most one change of each of some settings, a setting is what its own change makes it, or
as it was before. -/
theorem Arguments.held_changeAll_filterMap {change? : Setting → Option Change}
    (value? : (setting : Setting) → Option setting.Held)
    (hchange : ∀ setting,
      (∃ c, change? setting = some c ∧ c.setting = setting ∧ value? c.setting = some c.held) ∨
        (change? setting = none ∧ value? setting = none))
    {settings : List Setting} (hnodup : settings.Nodup) (a : Arguments) (setting : Setting) :
    (a.changeAll (settings.filterMap change?)).held setting =
      if setting ∈ settings then (value? setting).getD (a.held setting) else a.held setting := by
  induction settings generalizing a with
  | nil => rfl
  | cons other settings ih =>
    obtain ⟨hnew, hrest⟩ := List.nodup_cons.mp hnodup
    obtain ⟨c, hsome, rfl, hvalue⟩ | ⟨hnone, hvalue⟩ := hchange other
    · rw [List.filterMap_cons_some hsome, Arguments.changeAll_cons, ih hrest]
      by_cases hother : setting = c.setting
      · subst hother
        rw [if_neg hnew, if_pos List.mem_cons_self, hvalue, Option.getD_some,
          Arguments.held_change_self]
      · rw [Arguments.held_change_of_ne a (Ne.symm hother)]
        simp only [List.mem_cons, hother, false_or]
    · rw [List.filterMap_cons_none hnone, ih hrest]
      by_cases hother : setting = other
      · subst hother
        rw [if_neg hnew, if_pos List.mem_cons_self, hvalue, Option.getD_none]
      · simp only [List.mem_cons, hother, false_or]

/-- After the changes of variables, a setting is what its own variable stands for, or as it was
before. -/
theorem Arguments.held_variableChanges (environment : List (String × String)) (a : Arguments)
    (setting : Setting) :
    (a.changeAll (variableChanges environment)).held setting =
      (setting.ofVariable? environment).getD (a.held setting) := by
  unfold variableChanges
  rw [Arguments.held_changeAll_filterMap (fun other => other.ofVariable? environment) ?_
    (by decide) a setting, if_pos (Setting.mem_all setting)]
  intro other
  rw [Setting.fromVariables_eq]
  cases htext : environment.lookup other.ownVariable with
  | none => exact .inr ⟨rfl, by rw [Setting.ofVariable?, htext]; rfl⟩
  | some text =>
    rw [Option.map_some]
    obtain ⟨c, hok, rfl, hvalue⟩ | ⟨fault, herror, hvalue⟩ := other.changeBy_cases text
    · exact .inl ⟨c, by rw [hok], rfl, by rw [Setting.ofVariable?, htext]; exact hvalue⟩
    · exact .inr ⟨by rw [herror], by rw [Setting.ofVariable?, htext]; exact hvalue⟩

/-- What is held for the settings of a command line that is followed. -/
theorem Arguments.exists_uses {environment : List (String × String)} {words : List String}
    {a : Arguments} (h : Arguments.read environment words = .ok a) :
    ∃ uses, Uses words uses ∧ ∀ setting,
      (∀ use, lastUse setting.flag uses = some use →
        setting.readUse? use.text = some (a.held setting)) ∧
      (lastUse setting.flag uses = none →
        a.held setting = (setting.ofVariable? environment).getD setting.initial) := by
  obtain ⟨xs, p, hws, hxs, -, rfl⟩ := Arguments.read_eq_ok_iff.mp h
  obtain ⟨uses, cs, htaken, hchanges, hmakes⟩ := Progress.exists_taken hxs
  rw [List.nil_append] at hchanges
  refine ⟨uses, htaken.uses hws, fun setting => ?_⟩
  rw [hchanges]
  obtain ⟨hlast, hnone⟩ := Arguments.held_changeAll hmakes
    (Arguments.changeAll { input := p.input.getD "-" } (variableChanges environment)) setting
  refine ⟨hlast, fun hunused => ?_⟩
  rw [hnone hunused, Arguments.held_variableChanges]
  cases setting <;> rfl

/-- A command line that is followed in one environment is followed in any. -/
theorem Arguments.exists_read {environment : List (String × String)} {words : List String}
    {a : Arguments}
    (h : Arguments.read environment words = .ok a) (other : List (String × String)) :
    ∃ b, Arguments.read other words = .ok b := by
  obtain ⟨xs, p, hws, hxs, hextras, -⟩ := Arguments.read_eq_ok_iff.mp h
  exact ⟨_, Arguments.read_eq_ok_iff.mpr ⟨xs, p, hws, hxs, hextras, rfl⟩⟩

/-- One more variable stands for something new only for its own setting, and only if it is valid. -/
theorem Setting.of_ofVariable?_cons_ne {environment : List (String × String)} {name text : String}
    {setting : Setting} (hunset : environment.lookup name = none)
    (h : setting.ofVariable? ((name, text) :: environment) ≠ setting.ofVariable? environment) :
    name = setting.ownVariable ∧ setting.ofText? text ≠ none := by
  rw [Setting.ofVariable?, Setting.ofVariable?, List.lookup_cons] at h
  cases hname : setting.ownVariable == name with
  | true =>
    rw [hname, eq_of_beq hname, hunset] at h
    exact ⟨(eq_of_beq hname).symm, h⟩
  | false =>
    rw [hname] at h
    exact absurd rfl h

/-- Where the settings of a command line come from: for each of them from the last use of its own
option, from its own variable, or from nowhere. -/
structure Resolution (environment : List (String × String)) (words : List String) (a : Arguments)
    (uses : List Use) : Prop where
  /-- The words use options so. -/
  uses_words : Uses words uses
  /-- The words use options in no other way. -/
  only : ∀ others, Uses words others → others = uses
  /-- A setting whose option is used is what the last use stands for, unless its value is the end
  mark. -/
  used_iff : ∀ setting use, lastUse setting.flag uses = some use →
    (setting.ofUse? use.text = some (a.held setting) ↔ use.text ≠ some endMark)
  /-- The end mark in place of a value leaves a blank. -/
  blank : ∀ setting use, lastUse setting.flag uses = some use → use.text = some endMark →
    setting.ofBlank? = some (a.held setting)
  /-- A setting whose option is not used is what its variable stands for, if that is set and valid,
  or else the built-in value. -/
  unused : ∀ setting, lastUse setting.flag uses = none →
    a.held setting = (setting.ofVariable? environment).getD setting.initial
  /-- One more variable keeps the command line going. It changes a setting only if it is the
  setting's own, its value is valid, and the option is not used. -/
  frame : ∀ name text, environment.lookup name = none →
    ∃ b, Arguments.read ((name, text) :: environment) words = .ok b ∧
      ∀ setting, b.held setting ≠ a.held setting →
        name = setting.ownVariable ∧ setting.ofText? text ≠ none ∧ lastUse setting.flag uses = none

/-- The settings of every command line that is followed, in whatever environment, come from the last
uses of their own options, from their own variables if they are valid, or from nowhere. -/
theorem exists_resolution {environment : List (String × String)} {words : List String}
    {a : Arguments}
    (h : Arguments.read environment words = .ok a) :
    ∃ uses, Resolution environment words a uses := by
  obtain ⟨uses, huses, hheld⟩ := Arguments.exists_uses h
  refine ⟨uses, huses, fun others hothers => hothers.unique huses, fun setting use hlast => ?_,
    fun setting use hlast hmark => ?_, fun setting => (hheld setting).2, fun name text hunset => ?_⟩
  · have hread := (hheld setting).1 use hlast
    rw [Setting.readUse?] at hread
    split at hread
    · rename_i hmark
      rw [hmark]
      exact ⟨fun hvalue => absurd hvalue (Setting.ofBlank?_ne_ofUse? hread),
        fun hne => absurd rfl hne⟩
    · rename_i hmark
      exact ⟨fun _ => hmark, fun _ => hread⟩
  · have hread := (hheld setting).1 use hlast
    rwa [Setting.readUse?, if_pos hmark] at hread
  · obtain ⟨b, hb⟩ := Arguments.exists_read h ((name, text) :: environment)
    refine ⟨b, hb, fun setting hchanged => ?_⟩
    obtain ⟨same, hsame, hheld'⟩ := Arguments.exists_uses hb
    obtain rfl : same = uses := hsame.unique huses
    cases hlast : lastUse setting.flag same with
    | some use =>
      have hboth := ((hheld' setting).1 use hlast).symm.trans ((hheld setting).1 use hlast)
      exact absurd (Option.some.inj hboth) hchanged
    | none =>
      rw [(hheld' setting).2 hlast, (hheld setting).2 hlast] at hchanged
      obtain ⟨hname, hvalid⟩ :=
        Setting.of_ofVariable?_cons_ne hunset fun he => hchanged (by rw [he])
      exact ⟨hname, hvalid, rfl⟩

/-- A width is asked for by a beginning of its name and asked for again, and an end mark stands for
the file of the journal; the level of the environment is not valid, and its word on fenced code is a
no. -/
theorem exists_resolution_repeated :
    ∃ environment words a,
      environment =
        [("MDREFLOW_WIDTH", "40"), ("MDREFLOW_LOG_LEVEL", "loud"), ("MDREFLOW_LOG_FILE", "f"),
        ("MDREFLOW_ESCAPE_FENCED_CODE", "Off"), ("MDREFLOW_TRACE", "YES")] ∧
      words = ["--wid=20", "-ox", "notes.md", "--width", "30", "--log-file=--"] ∧
      a = { input := "notes.md", out := some (.is "x"), width := .is 30, escapeFencedCode := false,
            logFile := some .blank, trace := true } ∧
      Arguments.read environment words = .ok a ∧ ∃ uses, Resolution environment words a uses := by
  refine ⟨_, _, _, rfl, rfl, rfl, ?read, exists_resolution ?read⟩
  decide +kernel

end MarkdownLayout.CommandLine
