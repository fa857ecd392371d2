import MarkdownLayout.Proofs.CommandWords

/-!
# How words name options

A word names an option by one of its names in full, by the beginning of a long name that begins no
other, or by a letter; its value may stand in the same word, behind an equals sign or right behind
the letter. `Names` says so for texts, without the table of options and the order in which the cases
are tried, and `exists_classify_iff` shows that words are told apart in just this way.
-/

namespace MarkdownLayout

namespace Text

/-- What stands before the first mark has no mark. -/
theorem notMem_of_cutOnce {mark : Char} {cs before after : List Char}
    (h : cutOnce mark cs = some (before, after)) : mark ∉ before := by
  induction cs generalizing before with
  | nil => cases h
  | cons c rest ih =>
    rw [cutOnce] at h
    split at h
    · cases h
      exact List.not_mem_nil
    · rename_i hc
      obtain ⟨⟨front, back⟩, hrest, he⟩ := Option.map_eq_some_iff.mp h
      cases he
      rw [List.mem_cons, not_or]
      exact ⟨fun hm => hc hm.symm, ih hrest⟩

/-- A text is cut at the first mark. -/
theorem cutOnce_append {mark : Char} {before : List Char} (h : mark ∉ before) (after : List Char) :
    cutOnce mark (before ++ mark :: after) = some (before, after) := by
  induction before with
  | nil => rw [List.nil_append, cutOnce, if_pos rfl]
  | cons c rest ih =>
    rw [List.mem_cons, not_or] at h
    rw [List.cons_append, cutOnce, if_neg (Ne.symm h.1), ih h.2]
    rfl

/-- A text is not cut in two exactly if the mark is not in it. -/
theorem cutOnce_eq_none_iff {mark : Char} {cs : List Char} :
    cutOnce mark cs = none ↔ mark ∉ cs := by
  induction cs with
  | nil => exact ⟨fun _ => List.not_mem_nil, fun _ => rfl⟩
  | cons c rest ih =>
    rw [cutOnce, List.mem_cons, not_or]
    split
    · rename_i hc
      simp [hc]
    · rename_i hc
      rw [Option.map_eq_none_iff, ih]
      exact ⟨fun hrest => ⟨fun hm => hc hm.symm, hrest⟩, And.right⟩

end Text

namespace CommandLine

/-- A text is the beginning of a long name of an option, and of no other name. -/
def Begins (flag : Flag) (start : String) : Prop :=
  ['-', '-'] <+: start.toList ∧ ∃ name ∈ flag.names, start.toList <+: name.toList ∧
    ∀ other : Flag, ∀ named ∈ other.names, start.toList <+: named.toList →
      other = flag ∧ named = name

/-- A text with a value behind an equals sign, if there is one. -/
def withValue (start : String) : Option String → String
  | none => start
  | some value => start ++ "=" ++ value

/-- The ways in which a word names an option, with the value that stands in the same word. -/
inductive Names (flag : Flag) : String → Option String → Prop
  /-- By a name. -/
  | name {name : String} (value : Option String) : name ∈ flag.names →
    Names flag (withValue name value) value
  /-- By the beginning of a name. -/
  | start {start : String} (value : Option String) : Begins flag start →
    Names flag (withValue start value) value
  /-- By a letter, with a value right behind it. -/
  | letter {name value : String} : name ∈ flag.names → name.length = 2 → value ≠ "" →
    value.toList.head? ≠ some '=' → Names flag (name ++ value) (some value)

/-- The table lists each flag under all its names and under no other. -/
theorem mem_table_iff {name : String} {flag : Flag} :
    (name, flag) ∈ Flag.table ↔ name ∈ flag.names := by
  simp only [Flag.table, List.mem_flatMap, List.mem_map, Prod.mk.injEq]
  constructor
  · rintro ⟨_, _, _, hname, rfl, rfl⟩
    exact hname
  · intro hname
    exact ⟨flag, Flag.mem_all flag, name, hname, rfl, rfl⟩

/-- A name belongs to one option. -/
theorem eq_of_mem_names {name : String} {flag other : Flag} (h : name ∈ flag.names)
    (ho : name ∈ other.names) : other = flag := by
  have htable : ∀ x ∈ Flag.table, ∀ y ∈ Flag.table, x.1 = y.1 → y.2 = x.2 := by decide
  exact htable (name, flag) (mem_table_iff.mpr h) (name, other) (mem_table_iff.mpr ho) rfl

/-- A flag is found by a name exactly if the name is its own: no two flags share one. -/
theorem ofName?_eq_some_iff {name : String} {flag : Flag} :
    Flag.ofName? name = some flag ↔ name ∈ flag.names := by
  have hsound : ∀ other, Flag.ofName? name = some other → name ∈ other.names := by
    intro other h
    obtain ⟨front, back, htable, -⟩ := List.lookup_eq_some_iff.mp h
    exact mem_table_iff.mp (by rw [htable]; simp)
  refine ⟨hsound flag, fun h => ?_⟩
  cases hname : Flag.ofName? name with
  | none =>
    have hne := List.lookup_eq_none_iff.mp hname (name, flag) (mem_table_iff.mpr h)
    simp at hne
  | some other => rw [eq_of_mem_names h (hsound other hname)]

/-- A name has a dash in front and more behind it: one letter, or another dash and a long name. -/
theorem exists_cons_of_mem_names {name : String} {flag : Flag} (h : name ∈ flag.names) :
    ∃ c rest, name.toList = '-' :: c :: rest ∧ (c = '-' ↔ rest ≠ []) := by
  have htable : ∀ entry ∈ Flag.table, entry.1.toList.head? = some '-' ∧ 2 ≤ entry.1.toList.length ∧
      (entry.1.toList[1]? = some '-' ↔ entry.1.toList.length ≠ 2) := by decide
  obtain ⟨hdash, hlength, hlong⟩ := htable (name, flag) (mem_table_iff.mpr h)
  dsimp only at hdash hlength hlong
  generalize name.toList = cs at hdash hlength hlong
  obtain _ | ⟨d, _ | ⟨c, rest⟩⟩ := cs
  · cases hdash
  · simp at hlength
  · obtain rfl : d = '-' := Option.some.inj hdash
    refine ⟨c, rest, rfl, ?_⟩
    simpa using hlong

/-- No name holds an equals sign, so what stands behind one is a value. -/
theorem equals_notMem_of_mem_names {name : String} {flag : Flag} (h : name ∈ flag.names) :
    '=' ∉ name.toList := by
  have htable : ∀ entry ∈ Flag.table, '=' ∉ entry.1.toList := by decide
  exact htable (name, flag) (mem_table_iff.mpr h)

/-- Entries of the table are filtered to one that is the only one to pass. -/
theorem filter_table_eq_singleton {pass : String × Flag → Bool} {name : String} {flag : Flag}
    (hname : name ∈ flag.names) (hpass : pass (name, flag) = true)
    (honly : ∀ other : Flag, ∀ named ∈ other.names, pass (named, other) = true →
      other = flag ∧ named = name) : Flag.table.filter pass = [(name, flag)] := by
  have hmem : (name, flag) ∈ Flag.table.filter pass :=
    List.mem_filter.mpr ⟨mem_table_iff.mpr hname, hpass⟩
  have hall : ∀ entry ∈ Flag.table.filter pass, entry = (name, flag) := by
    rintro ⟨named, other⟩ hentry
    obtain ⟨htable, hfits⟩ := List.mem_filter.mp hentry
    obtain ⟨rfl, rfl⟩ := honly other named (mem_table_iff.mp htable) hfits
    rfl
  have hnodup : (Flag.table.filter pass).Nodup := List.Nodup.sublist List.filter_sublist (by decide)
  generalize Flag.table.filter pass = found at hmem hall hnodup ⊢
  obtain _ | ⟨first, _ | ⟨second, rest⟩⟩ := found
  · cases hmem
  · rw [hall first List.mem_cons_self]
  · have hsame : first = second :=
      (hall first List.mem_cons_self).trans (hall second (by simp)).symm
    rw [hsame] at hnodup
    exact absurd List.mem_cons_self (List.nodup_cons.mp hnodup).1

/-- Every text is split at its first equals sign. -/
theorem exists_withValue (text : String) :
    ∃ start value, text = withValue start value ∧ '=' ∉ start.toList := by
  cases hcut : Text.cutOnce '=' text.toList with
  | none => exact ⟨text, none, rfl, Text.cutOnce_eq_none_iff.mp hcut⟩
  | some parts =>
    obtain ⟨before, after⟩ := parts
    refine ⟨String.ofList before, some (String.ofList after), ?_, ?_⟩
    · apply String.toList_injective
      simpa [withValue] using Text.eq_append_of_cutOnce hcut
    · rw [String.toList_ofList]
      exact Text.notMem_of_cutOnce hcut

/-- A name and the value that is given with it are told apart again. -/
theorem splitValue_withValue {start : String} (h : '=' ∉ start.toList) (value : Option String) :
    splitValue (withValue start value) = value.map fun v => (start, v) := by
  cases value with
  | none => rw [splitValue, withValue, Text.cutOnce_eq_none_iff.mpr h]; rfl
  | some v =>
    have htext : (withValue start (some v)).toList = start.toList ++ '=' :: v.toList := by
      simp [withValue]
    rw [splitValue, htext, Text.cutOnce_append h]
    simp

/-- A word is an option in full if what stands before its value is a name. -/
theorem exactOption?_withValue {start : String} (h : '=' ∉ start.toList) (value : Option String) :
    exactOption? (withValue start value) =
      (Flag.ofName? start).map fun flag => .option flag start value := by
  rw [exactOption?, splitValue_withValue h]
  cases value with
  | none =>
    rw [withValue]
    cases Flag.ofName? start <;> rfl
  | some v =>
    have hnone : Flag.ofName? (withValue start (some v)) = none :=
      ofName?_eq_none (by simp [withValue])
    rw [hnone]
    rfl

/-- A word with two dashes may stand for the options that fit what stands before its value. -/
theorem longCandidates_withValue {start : String} (h : '=' ∉ start.toList) (value : Option String) :
    longCandidates (withValue start value) =
      (fitting start).map fun entry => .option entry.2 entry.1 value := by
  rw [longCandidates, splitValue_withValue h]
  cases value <;> rfl

/-- The one name that begins with a text. -/
theorem begins_of_fitting {start name : String} {flag : Flag} (hdash : ['-', '-'] <+: start.toList)
    (h : fitting start = [(name, flag)]) : Begins flag start := by
  have hmem : ∀ {other : Flag} {named : String}, (named, other) = (name, flag) ↔
      named ∈ other.names ∧ start.toList <+: named.toList := by
    intro other named
    rw [← List.mem_singleton, ← h, fitting, List.mem_filter, mem_table_iff,
      List.isPrefixOf_iff_prefix]
  obtain ⟨hname, hstart⟩ := hmem.mp rfl
  refine ⟨hdash, name, hname, hstart, fun other named hnamed hfits => ?_⟩
  obtain ⟨rfl, rfl⟩ := Prod.mk.inj (hmem.mpr ⟨hnamed, hfits⟩)
  exact ⟨rfl, rfl⟩

namespace Begins

variable {flag : Flag} {start : String}

/-- One entry of the table fits the beginning of a name that begins no other. -/
theorem exists_fitting (h : Begins flag start) : ∃ name, fitting start = [(name, flag)] := by
  obtain ⟨-, name, hname, hstart, honly⟩ := h
  refine ⟨name, filter_table_eq_singleton hname (List.isPrefixOf_iff_prefix.mpr hstart) ?_⟩
  intro other named hnamed hfits
  exact honly other named hnamed (List.isPrefixOf_iff_prefix.mp hfits)

/-- The beginning of a name holds no equals sign either. -/
theorem equals_notMem (h : Begins flag start) : '=' ∉ start.toList := by
  obtain ⟨-, name, hname, hstart, -⟩ := h
  exact fun hm => equals_notMem_of_mem_names hname (hstart.subset hm)

/-- A beginning that is a name is a name of the option. -/
theorem eq_of_ofName? (h : Begins flag start) {other : Flag}
    (ho : Flag.ofName? start = some other) : other = flag := by
  obtain ⟨-, _, -, -, honly⟩ := h
  exact (honly other start (ofName?_eq_some_iff.mp ho) (List.prefix_refl _)).1

end Begins

section Dashed

variable {text name : String} {flag : Flag} {attached : Option String} {word : Word} {c : Char}
  {cs : List Char}

/-- A word that is spelled like an option is that option, whatever else it might be short for. -/
theorem classify_of_exactOption? (htext : text.toList = '-' :: c :: cs)
    (hexact : exactOption? text = some word) : classify text = .ok word := by
  unfold classify
  rw [htext, hexact]
  rfl

/-- Any other word is what it is short for, if that is one option alone. -/
theorem classify_of_candidates (htext : text.toList = '-' :: c :: cs)
    (hexact : exactOption? text = none)
    (hcandidates : candidates text = [word]) : classify text = .ok word := by
  unfold classify
  rw [htext, hexact]
  simp only [classifyDashed, hcandidates]

/-- A word that names an option in full names it. -/
theorem names_of_exactOption? (h : exactOption? text = some (.option flag name attached)) :
    Names flag text attached := by
  obtain ⟨start, value, rfl, hstart⟩ := exists_withValue text
  rw [exactOption?_withValue hstart] at h
  obtain ⟨found, hfound, he⟩ := Option.map_eq_some_iff.mp h
  cases he
  exact .name _ (ofName?_eq_some_iff.mp hfound)

/-- A word with two dashes that can be but one option names it. -/
theorem names_of_longCandidates (htext : text.toList = '-' :: '-' :: cs)
    (h : longCandidates text = [.option flag name attached]) : Names flag text attached := by
  obtain ⟨start, value, rfl, hstart⟩ := exists_withValue text
  rw [longCandidates_withValue hstart] at h
  obtain ⟨⟨named, found⟩, hfitting, he⟩ := List.map_eq_singleton_iff.mp h
  cases he
  refine .start _ (begins_of_fitting ?_ hfitting)
  cases attached with
  | none =>
    rw [withValue] at htext
    exact ⟨cs, htext.symm⟩
  | some value =>
    have hparts : start.toList ++ '=' :: value.toList = '-' :: '-' :: cs := by
      rw [← htext]
      simp [withValue]
    generalize start.toList = front at hparts ⊢
    obtain _ | ⟨d, _ | ⟨e, front⟩⟩ := front
    · simp at hparts
    · simp at hparts
    · simp only [List.cons_append, List.cons.injEq] at hparts
      exact ⟨front, by rw [hparts.1, hparts.2.1]; rfl⟩

/-- A word with one dash that can be but one option names it. -/
theorem names_of_shortCandidates (hexact : exactOption? text = none)
    (h : shortCandidates text = [.option flag name attached]) : Names flag text attached := by
  obtain ⟨⟨named, found⟩, hfilter, he⟩ := List.map_eq_singleton_iff.mp h
  cases he
  have hentry : (name, flag) ∈ Flag.table.filter (·.1 == String.ofList (text.toList.take 2)) := by
    rw [hfilter]
    exact List.mem_cons_self
  obtain ⟨htable, hshort⟩ := List.mem_filter.mp hentry
  have hname := mem_table_iff.mp htable
  have hshort : name.toList = text.toList.take 2 := by
    have hsame : name = String.ofList (text.toList.take 2) := eq_of_beq hshort
    rw [hsame, String.toList_ofList]
  have hlength : name.length = 2 := by
    obtain ⟨c, rest, hcons, -⟩ := exists_cons_of_mem_names hname
    have hle := List.length_take_le 2 text.toList
    rw [← hshort, hcons] at hle
    rw [← String.length_toList, hcons]
    simp only [List.length_cons] at hle ⊢
    omega
  have htext : text = name ++ String.ofList (text.toList.drop 2) := by
    apply String.toList_injective
    rw [String.toList_append, hshort, String.toList_ofList, List.take_append_drop]
  -- The value neither is empty nor begins with an equals sign, or the word would be an option in
  -- full.
  have hfull : ∀ value, text ≠ withValue name value := by
    intro value he
    rw [he, exactOption?_withValue (equals_notMem_of_mem_names hname),
      ofName?_eq_some_iff.mpr hname] at hexact
    cases hexact
  generalize String.ofList (text.toList.drop 2) = value at htext ⊢
  subst htext
  refine .letter hname hlength ?_ fun hequals => ?_
  · rintro rfl
    exact hfull none (by simp [withValue])
  · obtain ⟨rest, hrest⟩ := List.head?_eq_some_iff.mp hequals
    refine hfull (some (String.ofList rest)) (String.toList_injective ?_)
    simp [withValue, hrest]

/-- A word that is an option names it. -/
theorem names_of_classify (h : classify text = .ok (.option flag name attached)) :
    Names flag text attached := by
  unfold classify at h
  split at h
  · cases h
  · cases h
  · rename_i rest hdash
    split at h
    · rename_i word hexact
      cases h
      exact names_of_exactOption? hexact
    · rename_i hexact
      unfold classifyDashed at h
      split at h
      · rename_i word hcandidates
        cases h
        unfold candidates at hcandidates
        split at hcandidates
        · rename_i d rest hlong
          rw [hlong] at hdash
          obtain ⟨rfl, rfl⟩ := List.cons.inj hdash
          exact names_of_longCandidates hlong hcandidates
        · exact names_of_shortCandidates hexact hcandidates
      · cases h
      · split at h <;> cases h
  · cases h

/-- A word that names an option by a text, with a value or without one, is that option if the text
is a name, or else if it fits one name only. -/
theorem exists_classify_withValue {start : String} (hstart : start.toList = '-' :: c :: cs)
    (hequals : '=' ∉ start.toList) (value : Option String)
    (hname : ∀ other, Flag.ofName? start = some other → other = flag)
    (hfits : Flag.ofName? start = none → c = '-' ∧ ∃ name, fitting start = [(name, flag)]) :
    ∃ name, classify (withValue start value) = .ok (.option flag name value) := by
  have htext : ∃ rest, (withValue start value).toList = '-' :: c :: rest := by
    cases value <;> simp [withValue, hstart]
  obtain ⟨rest, htext⟩ := htext
  have hexact := exactOption?_withValue hequals value
  cases hfound : Flag.ofName? start with
  | some other =>
    rw [hfound, hname other hfound] at hexact
    exact ⟨start, classify_of_exactOption? htext hexact⟩
  | none =>
    rw [hfound] at hexact
    obtain ⟨rfl, name, hfitting⟩ := hfits hfound
    refine ⟨name, classify_of_candidates htext hexact ?_⟩
    unfold candidates
    rw [htext]
    simp only [longCandidates_withValue hequals, hfitting, List.map_cons, List.map_nil]

/-- A word that names an option by a letter, with a value right behind it, is that option. -/
theorem classify_letter {value : String} (hname : name ∈ flag.names) (hlength : name.length = 2)
    (hvalue : value ≠ "") (hequals : value.toList.head? ≠ some '=') :
    classify (name ++ value) = .ok (.option flag name (some value)) := by
  obtain ⟨c, rest, hcons, hlong⟩ := exists_cons_of_mem_names hname
  rw [← String.length_toList, hcons] at hlength
  obtain rfl : rest = [] := List.eq_nil_of_length_eq_zero (Nat.succ.inj (Nat.succ.inj hlength))
  have hc : c ≠ '-' := fun he => hlong.mp he rfl
  have htext : (name ++ value).toList = '-' :: c :: value.toList := by
    rw [String.toList_append, hcons]
    rfl
  -- No text that goes on behind the letter is a name: the only longer names have two dashes.
  have hlonger : ∀ {start : String} {d : Char} {more : List Char},
      start.toList = '-' :: c :: d :: more → Flag.ofName? start = none := by
    intro start d more hstart
    cases hfound : Flag.ofName? start with
    | none => rfl
    | some other =>
      obtain ⟨e, tail, hcons', hlong'⟩ := exists_cons_of_mem_names (ofName?_eq_some_iff.mp hfound)
      rw [hstart] at hcons'
      simp only [List.cons.injEq, true_and] at hcons'
      exact absurd
        (hcons'.1.trans (hlong'.mpr (by rw [← hcons'.2]; exact List.cons_ne_nil d more))) hc
  have hexact : exactOption? (name ++ value) = none := by
    obtain ⟨start, behind, hparts, hstart⟩ := exists_withValue (name ++ value)
    rw [hparts, exactOption?_withValue hstart, Option.map_eq_none_iff]
    rw [hparts] at htext
    cases behind with
    | none =>
      obtain ⟨d, more, hmore⟩ := List.exists_cons_of_ne_nil (mt String.toList_eq_nil_iff.mp hvalue)
      exact hlonger (htext.trans (by rw [hmore]))
    | some b =>
      have hfront : start.toList ++ '=' :: b.toList = '-' :: c :: value.toList := by
        rw [← htext]
        simp [withValue]
      have hletter : '=' ≠ c := fun he =>
        equals_notMem_of_mem_names hname (by rw [hcons, ← he]; simp)
      rcases hchars : start.toList with _ | ⟨x, _ | ⟨y, _ | ⟨d, more⟩⟩⟩ <;>
        rw [hchars] at hfront <;>
        simp only [List.nil_append, List.cons_append, List.cons.injEq] at hfront
      · exact absurd hfront.1 (by decide)
      · exact absurd hfront.2.1 hletter
      · exact absurd (by rw [← hfront.2.2]; rfl) hequals
      · exact hlonger (by rw [hchars, hfront.1, hfront.2.1])
  refine classify_of_candidates htext hexact ?_
  have hfilter : Flag.table.filter (·.1 == name) = [(name, flag)] := by
    refine filter_table_eq_singleton hname (beq_self_eq_true name)
      fun other named hnamed hsame => ?_
    obtain rfl : named = name := eq_of_beq hsame
    exact ⟨eq_of_mem_names hname hnamed, rfl⟩
  have hshort : String.ofList ((name ++ value).toList.take 2) = name := by
    rw [htext, ← String.ofList_toList (s := name), hcons]
    rfl
  have hdrop : String.ofList ((name ++ value).toList.drop 2) = value := by
    rw [htext]
    exact String.ofList_toList
  have hlist : shortCandidates (name ++ value) = [.option flag name (some value)] := by
    simp only [shortCandidates, hshort, hdrop, hfilter, List.map_cons, List.map_nil]
  unfold candidates
  split
  · rename_i d rest hdash
    rw [htext] at hdash
    simp only [List.cons.injEq] at hdash
    exact absurd hdash.2.1 hc
  · exact hlist

/-- A word is an option, with the value that stands in it, exactly when it names the option so. -/
theorem exists_classify_iff : (∃ name, classify text = .ok (.option flag name attached)) ↔
    Names flag text attached := by
  constructor
  · rintro ⟨name, h⟩
    exact names_of_classify h
  · intro h
    cases h with
    | name value hname =>
      obtain ⟨c, rest, hcons, -⟩ := exists_cons_of_mem_names hname
      refine exists_classify_withValue hcons (equals_notMem_of_mem_names hname) _ ?_ ?_
      · intro other hother
        exact eq_of_mem_names hname (ofName?_eq_some_iff.mp hother)
      · intro hnone
        rw [ofName?_eq_some_iff.mpr hname] at hnone
        cases hnone
    | start value hbegins =>
      obtain ⟨rest, hrest⟩ := hbegins.1
      exact exists_classify_withValue hrest.symm hbegins.equals_notMem _
        (fun _ => hbegins.eq_of_ofName?) fun _ => ⟨rfl, hbegins.exists_fitting⟩
    | letter hname hlength hvalue hequals => exact ⟨_, classify_letter hname hlength hvalue hequals⟩

end Dashed

end CommandLine

end MarkdownLayout
