import MarkdownLayout.Proofs.Titles

/-!
# Destinations

A destination ends at the first closing parenthesis that closes none of its own. It may hold
parentheses, with a backslash in front or balanced. A url goes through the escapes of running text,
and these look at parentheses in one case only: a closing one behind a digit gets a backslash, as it
would end the number of a list item at the start of a line.

So a destination is not always read as it was meant. `write_destination` says when it is: the
parentheses of the url must be balanced, once those closing ones are left out that stand behind a
digit. A url that is balanced as a whole may be lost for that reason. Where the destination ends as
it should, it is the url.
-/

namespace MarkdownLayout

open Text.Utf8 (encode)

/-- ASCII punctuation, which a backslash takes along. -/
def isPunctuation (c : Char) : Bool :=
  ('!' ≤ c && c ≤ '/') || (':' ≤ c && c ≤ '@') || ('[' ≤ c && c ≤ '\x60') || ('\x7b' ≤ c && c ≤ '~')

/-- A blank or an ASCII control character, which a destination cannot hold. -/
def endsDestination (c : Char) : Bool :=
  c ≤ ' ' || c = '\x7f'

/-- What has been read with a piece in front. -/
def consPiece (p : Piece) (found : List Piece × List Char) : List Piece × List Char :=
  (p :: found.1, found.2)

/-- The pieces of the destination at the start of a text, and what is left of the text. `opened`
parentheses are open already; if one is never closed there is no destination. -/
def readDestination (opened : Nat) : List Char → Option (List Piece × List Char)
  | [] => if opened = 0 then some ([], []) else none
  | '\\' :: c :: rest =>
    if isPunctuation c then (readDestination opened rest).map (consPiece ⟨c, true⟩)
    else (readDestination opened (c :: rest)).map (consPiece ⟨'\\', false⟩)
  | c :: rest =>
    if c = '(' then (readDestination (opened + 1) rest).map (consPiece ⟨c, false⟩)
    else if c = ')' then
      if opened = 0 then some ([], c :: rest)
      else (readDestination (opened - 1) rest).map (consPiece ⟨c, false⟩)
    else if endsDestination c then if opened = 0 then some ([], c :: rest) else none
    else (readDestination opened rest).map (consPiece ⟨c, false⟩)

/-- A backslash takes along the punctuation behind it. -/
theorem readDestination_escaped {c : Char} (hc : isPunctuation c = true) (opened : Nat)
    (rest : List Char) :
    readDestination opened ('\\' :: c :: rest) =
      (readDestination opened rest).map (consPiece ⟨c, true⟩) := by
  rw [readDestination, if_pos hc]

/-- What is read where there is no backslash. -/
theorem readDestination_cons {c : Char} (hc : c ≠ '\\') (opened : Nat) (rest : List Char) :
    readDestination opened (c :: rest) =
      if c = '(' then (readDestination (opened + 1) rest).map (consPiece ⟨c, false⟩)
      else if c = ')' then
        if opened = 0 then some ([], c :: rest)
        else (readDestination (opened - 1) rest).map (consPiece ⟨c, false⟩)
      else if endsDestination c then if opened = 0 then some ([], c :: rest) else none
      else (readDestination opened rest).map (consPiece ⟨c, false⟩) := by
  rw [readDestination]
  rintro d more he
  exact absurd he hc

/-- Pieces in front of what has been read. -/
theorem map_consPiece_eq_some_iff {found : Option (List Piece × List Char)} {p : Piece}
    {ps : List Piece} {rest : List Char} :
    found.map (consPiece p) = some (ps, rest) ↔ ∃ qs, ps = p :: qs ∧ found = some (qs, rest) := by
  constructor
  · intro h
    obtain ⟨⟨qs, left⟩, hfound, he⟩ := Option.map_eq_some_iff.mp h
    obtain ⟨rfl, rfl⟩ := Prod.mk.inj he
    exact ⟨qs, rfl, hfound⟩
  · rintro ⟨qs, rfl, rfl⟩
    rfl

/-- Parentheses behind `opened` that are open: none is closed that is not open, and all are closed
at the end. -/
structure ParensBalanced (opened : Nat) (parens : List Char) : Prop where
  /-- None is closed that is not open. -/
  nested : ∀ front, front <+: parens → front.count ')' ≤ opened + front.count '('
  /-- All are closed at the end. -/
  closed : parens.count ')' = opened + parens.count '('

/-- At the end no parenthesis may be open. -/
theorem parensBalanced_nil_iff {opened : Nat} : ParensBalanced opened [] ↔ opened = 0 := by
  constructor
  · intro h
    have := h.closed
    simpa using this.symm
  · rintro rfl
    refine ⟨fun front hf => ?_, rfl⟩
    rw [List.prefix_nil.mp hf]
    exact Nat.le_refl 0

/-- A parenthesis in front changes how many are open behind it. -/
theorem parensBalanced_cons_iff {opened opened' : Nat} {c : Char}
    (h : opened + [c].count '(' = opened' + [c].count ')') {parens : List Char} :
    ParensBalanced opened (c :: parens) ↔ ParensBalanced opened' parens := by
  have hcount : ∀ (x : Char) (cs : List Char), (c :: cs).count x = [c].count x + cs.count x := by
    intro x cs
    rw [← List.count_append, List.singleton_append]
  constructor
  · intro hall
    refine ⟨fun front hf => ?_, ?_⟩
    · have hfront := hall.nested (c :: front) ((List.prefix_cons_inj c).mpr hf)
      rw [hcount ')' front, hcount '(' front] at hfront
      omega
    · have hclosed := hall.closed
      rw [hcount ')' parens, hcount '(' parens] at hclosed
      omega
  · intro hrest
    refine ⟨fun front hf => ?_, ?_⟩
    · rcases List.prefix_cons_iff.mp hf with rfl | ⟨inner, rfl, hinner⟩
      · exact Nat.zero_le _
      · have hfront := hrest.nested inner hinner
        rw [hcount ')' inner, hcount '(' inner]
        omega
    · have hclosed := hrest.closed
      rw [hcount ')' parens, hcount '(' parens]
      omega

/-- An opening parenthesis is one more to be closed. -/
theorem parensBalanced_open_iff {opened : Nat} {parens : List Char} :
    ParensBalanced opened ('(' :: parens) ↔ ParensBalanced (opened + 1) parens :=
  parensBalanced_cons_iff rfl

/-- A closing parenthesis must close one that is open. -/
theorem parensBalanced_close_iff {opened : Nat} {parens : List Char} :
    ParensBalanced opened (')' :: parens) ↔ opened ≠ 0 ∧ ParensBalanced (opened - 1) parens := by
  have hshift : opened ≠ 0 → opened + [')'].count '(' = opened - 1 + [')'].count ')' := fun hpos =>
    (Nat.succ_pred_eq_of_ne_zero hpos).symm
  constructor
  · intro h
    have hpos : opened ≠ 0 := by
      rintro rfl
      exact absurd (h.nested [')'] ⟨parens, rfl⟩) (by decide)
    exact ⟨hpos, (parensBalanced_cons_iff (hshift hpos)).mp h⟩
  · rintro ⟨hpos, h⟩
    exact (parensBalanced_cons_iff (hshift hpos)).mpr h

/-- The parentheses of a url that get no backslash: all but the closing ones right behind a
digit. -/
def bareParens (prev : Char) : List Char → List Char
  | [] => []
  | c :: rest =>
    if c = '(' ∨ c = ')' ∧ prev.isDigit = false then c :: bareParens c rest else bareParens c rest

namespace Piece

/-- Only punctuation gets a backslash. -/
theorem isPunctuation_of_escapedBehind {prev c : Char} {next : Option Char}
    (h : escapedBehind prev c next = true) : isPunctuation c = true := by
  simp only [escapedBehind, marked, Bool.or_eq_true, Bool.and_eq_true, decide_eq_true_eq,
    List.mem_cons,
    List.not_mem_nil, or_false] at h
  rcases h with (((h | ⟨rfl, _⟩) | ⟨rfl, _⟩) | ⟨h, _⟩) | ⟨h, _⟩
  · rcases h with rfl | rfl | rfl | rfl | rfl | rfl | rfl <;> decide
  · decide
  · decide
  · rcases h with rfl | rfl <;> decide
  · rcases Writer.eq_of_mem_opensBlock h with rfl | rfl | rfl | rfl <;> decide

/-- An opening parenthesis never gets a backslash. -/
theorem escapedBehind_open (prev : Char) (next : Option Char) :
    escapedBehind prev '(' next = false := by
  simp [escapedBehind, marked, Writer.opensBlock]

/-- A closing one gets a backslash behind a digit, where it could end the number of an item, and
nowhere else. -/
theorem escapedBehind_close (prev : Char) (next : Option Char) :
    escapedBehind prev ')' next = prev.isDigit := by
  simp [escapedBehind, marked, Writer.opensBlock]

/-- A backslash always gets one. -/
theorem escapedBehind_backslash (prev : Char) (next : Option Char) :
    escapedBehind prev '\\' next = true := by
  simp [escapedBehind, marked]

end Piece

/-- What is written for a url is read up to its end exactly if its parentheses without a backslash
are balanced, and then it is read as it was written. -/
theorem readDestination_behind_iff {opened : Nat} {prev : Char} {url : List Char}
    (hurl : ∀ c ∈ url, endsDestination c = false) {ps : List Piece} :
    readDestination opened (Piece.spellAll (Piece.behind true prev url) ++ [')']) =
      some (ps, [')']) ↔
      ps = Piece.behind true prev url ∧ ParensBalanced opened (bareParens prev url) := by
  induction url generalizing opened prev ps with
  | nil =>
    have hread : readDestination opened [')'] =
        if opened = 0 then some ([], [')'])
        else (readDestination (opened - 1) []).map (consPiece ⟨')', false⟩) := by
      rw [readDestination_cons (by decide), if_neg (by decide), if_pos rfl]
    have hnil : bareParens prev [] = [] := rfl
    rw [hnil, parensBalanced_nil_iff, Piece.behind, Piece.spellAll_nil, List.nil_append, hread]
    by_cases hzero : opened = 0
    · simp [hzero, eq_comm]
    · -- The parenthesis at the end closes one of the url, and nothing is left.
      rw [if_neg hzero, map_consPiece_eq_some_iff]
      refine iff_of_false ?_ fun h => hzero h.2
      rintro ⟨qs, -, hleft⟩
      rw [readDestination] at hleft
      split at hleft <;> simp at hleft
  | cons c rest ih =>
    obtain ⟨hc, hrest⟩ := List.forall_mem_cons.mp hurl
    have hcons : ∀ {opened : Nat} {p : Piece} {ps : List Piece},
        (readDestination opened (Piece.spellAll (Piece.behind true c rest) ++ [')'])).map
          (consPiece p) =
            some (ps, [')']) ↔
          ps = p :: Piece.behind true c rest ∧ ParensBalanced opened (bareParens c rest) := by
      intro opened p ps
      rw [map_consPiece_eq_some_iff]
      constructor
      · rintro ⟨qs, rfl, hfound⟩
        obtain ⟨rfl, hbalanced⟩ := (ih hrest).mp hfound
        exact ⟨rfl, hbalanced⟩
      · rintro ⟨rfl, hbalanced⟩
        exact ⟨_, rfl, (ih hrest).mpr ⟨rfl, hbalanced⟩⟩
    rw [Piece.behind, Bool.true_and, Piece.spellAll_cons, List.append_assoc, bareParens]
    cases hescaped : Piece.escapedBehind prev c rest.head? with
    | true =>
      have hbare : ¬ (c = '(' ∨ c = ')' ∧ prev.isDigit = false) := by
        rintro (rfl | ⟨rfl, hdigit⟩)
        · rw [Piece.escapedBehind_open] at hescaped
          cases hescaped
        · rw [Piece.escapedBehind_close, hdigit] at hescaped
          cases hescaped
      rw [if_neg hbare]
      show readDestination opened ('\\' :: c :: _) = _ ↔ _
      rw [readDestination_escaped (Piece.isPunctuation_of_escapedBehind hescaped)]
      exact hcons
    | false =>
      have hback : c ≠ '\\' := by
        rintro rfl
        rw [Piece.escapedBehind_backslash] at hescaped
        cases hescaped
      show readDestination opened (c :: (Piece.spellAll (Piece.behind true c rest) ++ [')'])) =
        _ ↔ _
      rw [readDestination_cons hback]
      by_cases hopen : c = '('
      · subst hopen
        rw [if_pos rfl, if_pos (.inl rfl), parensBalanced_open_iff]
        exact hcons
      · by_cases hclose : c = ')'
        · subst hclose
          have hdigit : prev.isDigit = false := by rwa [Piece.escapedBehind_close] at hescaped
          have hbare : ')' = '(' ∨ ')' = ')' ∧ prev.isDigit = false := .inr ⟨rfl, hdigit⟩
          rw [if_neg hopen, if_pos (show ')' = ')' from rfl), if_pos hbare,
            parensBalanced_close_iff]
          by_cases hzero : opened = 0
          · rw [if_pos hzero]
            refine iff_of_false (fun h => ?_) fun h => h.2.1 hzero
            simp at h
          · rw [if_neg hzero, hcons]
            exact and_congr_right fun _ => (and_iff_right hzero).symm
        · rw [if_neg hopen, if_neg hclose, if_neg (by simp [hc]), if_neg (by simp [hopen, hclose])]
          exact hcons

/-- A link or an image without a title ends with its destination. Where lines are not broken it is
written on one line, behind the breaks owed and the margin, whatever the writer has been through.
For a url without blanks and control characters, the destination ends at the parenthesis behind it
exactly if the parentheses of the url are balanced when the closing ones behind a digit are left
out; and wherever it ends there, it is the url. -/
theorem write_destination (settings : RenderSettings) (slot : Slot) {w : Writer}
    (hwidth : w.width = 0)
    (url : String) (hurl : ∀ c ∈ url.toList, endsDestination c = false) {title : Option String}
    (htitle : isWritten title = false) {container : Container}
    (hcontainer : container ∈ [Container.link url title, .image url title]) :
    ∃ (w' : Writer) (text : List Char),
      Visit.write settings ⟨.exit, .container container, slot⟩ w = .ok () w' ∧
      w'.buffer.toList = w.flush.openLine.buffer.toList ++
        encode ("](".toList ++ text ++ ")".toList) ∧
      ((∃ ps, readDestination 0 (text ++ [')']) = some (ps, [')'])) ↔
        ParensBalanced 0 (bareParens '(' url.toList)) ∧
      ∀ ps, readDestination 0 (text ++ [')']) = some (ps, [')']) →
        Piece.spellAll ps = text ∧ Piece.chars ps = url.toList := by
  have hwrite : Visit.write settings ⟨.exit, .container container, slot⟩ w =
      closeDestination url title w := by
    simp only [List.mem_cons, List.not_mem_nil, or_false] at hcontainer
    rcases hcontainer with rfl | rfl <;> rfl
  have hline : '\n' ∉ url.toList := fun hn => absurd (hurl '\n' hn) (by decide)
  have huntitled : writeTitle title = pure () := by
    unfold writeTitle
    cases title with
    | none => rfl
    | some text =>
      have hempty : text.isEmpty = true := by simpa [isWritten] using htitle
      exact if_pos hempty
  obtain ⟨opened, placed, hliteral, hemit, hwrote, _, hplaced⟩ :=
    Writer.exists_open_destination hwidth url fun hn => absurd hn hline
  have hlast : '\n' ∉ [url.toList.getLast?.getD '(', ')'] := by
    rw [List.mem_cons, not_or]
    refine ⟨fun he => ?_, by decide⟩
    cases hlast : url.toList.getLast? with
    | none => simp [hlast] at he
    | some c =>
      refine hline ?_
      rw [hlast, Option.getD_some] at he
      rw [he]
      exact List.mem_of_getLast? hlast
  obtain ⟨w', hend, hwroteEnd, _⟩ := hplaced.literal ")" fun hn => absurd hn hlast
  refine ⟨w', Piece.spellAll (Piece.behind true '(' url.toList), ?_,
    (hwrote.trans hwroteEnd).buffer, ?_, fun ps hread => ?_⟩
  · rw [hwrite, closeDestination, bind_of_ok hliteral, bind_of_ok hemit, huntitled]
    exact hend
  · constructor
    · rintro ⟨ps, hread⟩
      exact ((readDestination_behind_iff hurl).mp hread).2
    · intro hbalanced
      exact ⟨_, (readDestination_behind_iff hurl).mpr ⟨rfl, hbalanced⟩⟩
  · obtain ⟨rfl, _⟩ := (readDestination_behind_iff hurl).mp hread
    exact ⟨rfl, Piece.chars_behind true '(' url.toList⟩

/-- A url with a number in its parentheses and a parenthesis behind them: the first closing one gets
a backslash, so the second one closes the one that is open, and the url is read although it is not
balanced. -/
theorem write_destination_numbered :
    ∃ (w' : Writer) (text : List Char),
      Visit.write {} ⟨.exit, .container (.image "d_(19)ed)" none), .stray⟩ { width := 0 } =
        .ok () w' ∧
      w'.buffer.toList = ({ width := 0 } : Writer).flush.openLine.buffer.toList ++
        encode ("](".toList ++ text ++ ")".toList) ∧
      ((∃ ps, readDestination 0 (text ++ [')']) = some (ps, [')'])) ↔
        ParensBalanced 0 (bareParens '(' "d_(19)ed)".toList)) ∧
      ∀ ps, readDestination 0 (text ++ [')']) = some (ps, [')']) →
        Piece.spellAll ps = text ∧ Piece.chars ps = "d_(19)ed)".toList := by
  have hurl : ∀ c ∈ "d_(19)ed)".toList, endsDestination c = false := by
    intro c hc
    simp only [String.reduceToList, List.mem_cons, List.not_mem_nil, or_false] at hc
    rcases hc with rfl | rfl | rfl | rfl | rfl | rfl | rfl | rfl | rfl <;> rfl
  exact write_destination {} .stray rfl "d_(19)ed)" hurl rfl
    (List.mem_cons_of_mem _ List.mem_cons_self)

end MarkdownLayout
