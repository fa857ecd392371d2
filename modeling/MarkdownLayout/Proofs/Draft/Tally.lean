import MarkdownLayout.Proofs.Draft.Spelling

/-!
# Reading a draft for signs

Two characters can be markup when the first of them has no backslash: an exclamation mark in front
of a bracket opens an image, and an ampersand in front of a letter may open an entity. The signs of
a text are counted by a reader that goes over it once, from left to right, which is
`Tally.count_read`.

A blank and a line end mean the same to the reader, and the backslash in front of what would open a
block means nothing, so it does not see whether a line has been broken. What a span does to the
reader therefore depends on the characters of the span alone: this is `Draft.Tallied.emit`. A span
with escapes makes no sign of its own, by `Tally.putAll_escaped`; it may complete one, or end with
the first character of one.
-/

namespace MarkdownLayout

/-- Two characters that are markup when the first of them has no backslash. -/
inductive Sign where
  /-- What opens an image. -/
  | image
  /-- What may open an entity. -/
  | entity
  deriving DecidableEq, Repr

namespace Sign

/-- The first of the two characters. -/
def mark : Sign → Char
  | .image => '!'
  | .entity => '&'

/-- Whether a character may be the second one. -/
def follows : Sign → Char → Bool
  | .image, c => c = '['
  | .entity, c => c.isAlpha

/-- How often the sign stands in a text. A backslash takes along the character behind it. -/
def count (sign : Sign) : List Char → Nat
  | [] => 0
  | '\\' :: _ :: rest => sign.count rest
  | c :: rest => (c = sign.mark && rest.head?.any sign.follows).toNat + sign.count rest

end Sign

/-- What a reader has in front of the next character. -/
inductive Stance where
  /-- Nothing that matters. -/
  | plain
  /-- The first character of a sign. -/
  | marked
  /-- A backslash that takes the next character along. -/
  | escaped
  deriving DecidableEq, Repr

namespace Stance

/-- Whether the first character of a sign is in front. -/
def isMarked : Stance → Bool
  | .marked => true
  | _ => false

/-- The first character of a sign, or nothing that matters. -/
def ofMarked : Bool → Stance
  | true => .marked
  | false => .plain

@[simp] theorem isMarked_ofMarked (b : Bool) : (ofMarked b).isMarked = b := by
  cases b <;> rfl

/-- The first character of a sign escapes nothing. -/
theorem ofMarked_ne_escaped (b : Bool) : ofMarked b ≠ .escaped := by
  cases b <;> simp [ofMarked]

end Stance

/-- What a reader has seen of a text. -/
structure Tally where
  /-- What stands in front of the next character. -/
  stance : Stance := .plain
  /-- The number of signs. -/
  count : Nat := 0
  deriving DecidableEq, Repr

namespace Sign

/-- What a character that is not escaped leaves in front of the next one. -/
def stance (sign : Sign) (c : Char) : Stance :=
  if c = '\\' then .escaped else if c = sign.mark then .marked else .plain

/-- The signs in the rest of a text. -/
def pending (sign : Sign) (cs : List Char) : Stance → Nat
  | .plain => sign.count cs
  | .marked => (cs.head?.any sign.follows).toNat + sign.count cs
  | .escaped => sign.count cs.tail

/-- The signs of a text are those in the rest of it, and one more if the first two characters are
one. -/
theorem count_cons (sign : Sign) (c : Char) (rest : List Char) :
    sign.count (c :: rest) = sign.pending rest (sign.stance c) := by
  by_cases hc : c = '\\'
  · subst hc
    cases rest with
    | nil => simp [count, pending, stance]
    | cons d rest => simp [count, pending, stance]
  · have hcount : sign.count (c :: rest) =
        (c = sign.mark && rest.head?.any sign.follows).toNat + sign.count rest := by
      rw [count]
      rintro d rest' rfl
      exact absurd rfl hc
    rw [hcount, stance, if_neg hc]
    by_cases hm : c = sign.mark <;> simp [hm, pending]

end Sign

namespace Tally

/-- Read one character. -/
def next (sign : Sign) (t : Tally) (c : Char) : Tally :=
  match t.stance with
  | .plain => ⟨sign.stance c, t.count⟩
  | .marked => ⟨sign.stance c, t.count + (sign.follows c).toNat⟩
  | .escaped => ⟨.plain, t.count⟩

/-- Read a text. -/
def read (sign : Sign) (text : List Char) : Tally :=
  text.foldl (next sign) {}

/-- Reading a text that goes on is reading on. -/
theorem read_append (sign : Sign) (text more : List Char) :
    read sign (text ++ more) = more.foldl (next sign) (read sign text) :=
  List.foldl_append

/-- The reader counts what is still to come. -/
theorem count_foldl_next (sign : Sign) (cs : List Char) (t : Tally) :
    (cs.foldl (next sign) t).count = t.count + sign.pending cs t.stance := by
  induction cs generalizing t with
  | nil => cases h : t.stance <;> simp [Sign.pending, Sign.count]
  | cons c rest ih =>
    rw [List.foldl_cons, ih]
    cases h : t.stance with
    | plain => simp [next, h, Sign.pending, Sign.count_cons]
    | marked =>
      simp [next, h, Sign.pending, Sign.count_cons]
      omega
    | escaped => simp [next, h, Sign.pending]

/-- A reader of a whole text has counted the signs in it. -/
theorem count_read (sign : Sign) (text : List Char) : (read sign text).count = sign.count text := by
  rw [read, count_foldl_next]
  exact Nat.zero_add _

end Tally

/-- Characters that are no part of a sign. -/
def quiet : List Char :=
  [' ', '\n', '"', '(', ')', ']', '*', '-', '+', '#', '=', '.']

/-- No character that opens a block is part of a sign, so a guard changes no count. -/
theorem quiet_of_opensBlock {c : Char} (h : c ∈ Writer.opensBlock) : c ∈ quiet := by
  rcases Writer.eq_of_mem_opensBlock h with rfl | rfl | rfl | rfl <;> simp [quiet]

namespace Sign

/-- A quiet character begins no sign and completes none. -/
theorem of_quiet (sign : Sign) {c : Char} (h : c ∈ quiet) :
    sign.stance c = .plain ∧ sign.follows c = false := by
  simp only [quiet, List.mem_cons, List.not_mem_nil, or_false] at h
  rcases h with rfl | rfl | rfl | rfl | rfl | rfl | rfl | rfl | rfl | rfl | rfl | rfl <;>
    cases sign <;> decide

/-- No sign ends with a backslash. -/
theorem follows_backslash (sign : Sign) : sign.follows '\\' = false := by
  cases sign <;> decide

/-- Whether a character completes the sign even where it is escaped if need be. -/
def completes : Sign → Char → Bool
  | .image, _ => false
  | .entity, c => c.isAlpha

/-- A character that may be the second one completes the sign unless it gets a backslash itself. -/
theorem completes_eq (sign : Sign) (c : Char) (following : Option Char) :
    sign.completes c = (sign.follows c && !marked none c following) := by
  cases sign with
  | image => by_cases hc : c = '[' <;> simp [completes, follows, marked, hc]
  | entity =>
    cases ha : c.isAlpha with
    | false => simp [completes, follows, ha]
    | true =>
      have hne : ∀ d : Char, d.isAlpha = false → c ≠ d := by
        rintro d hd rfl
        rw [ha] at hd
        cases hd
      have hm : marked none c following = false := by
        simp [marked, hne '*' rfl, hne '_' rfl, hne '[' rfl, hne ']' rfl, hne '<' rfl, hne '>' rfl,
          hne '\\' rfl, hne '&' rfl, hne '!' rfl]
      simp [completes, follows, ha, hm]

/-- The mark of a sign gets a backslash exactly when the sign would be completed in the same
span. -/
theorem marked_mark (sign : Sign) (following : Option Char) :
    marked none sign.mark following = following.any sign.follows := by
  cases sign <;> cases following <;> simp [mark, follows, marked]

end Sign

namespace Tally

/-- A quiet character leaves the count alone, and the reader with nothing in front that matters. -/
theorem next_quiet (sign : Sign) {c : Char} (h : c ∈ quiet) (t : Tally) :
    t.next sign c = ⟨.plain, t.count⟩ := by
  obtain ⟨hs, hf⟩ := sign.of_quiet h
  unfold next
  split <;> simp [hs, hf]

/-- So do quiet characters one after the other. -/
theorem foldl_quiet (sign : Sign) {cs : List Char} (h : ∀ c ∈ cs, c ∈ quiet) (hne : cs ≠ [])
    (t : Tally) : cs.foldl (next sign) t = ⟨.plain, t.count⟩ := by
  induction cs generalizing t with
  | nil => exact absurd rfl hne
  | cons c rest ih =>
    obtain ⟨hc, hrest⟩ := List.forall_mem_cons.mp h
    rw [List.foldl_cons, next_quiet sign hc]
    cases rest with
    | nil => rfl
    | cons d rest => exact ih hrest (List.cons_ne_nil d rest) _

/-- A backslash and the character that it takes along. -/
theorem foldl_escaped (sign : Sign) {t : Tally} (ht : t.stance ≠ .escaped) (c : Char) :
    ['\\', c].foldl (next sign) t = ⟨.plain, t.count⟩ := by
  have hs : sign.stance '\\' = .escaped := rfl
  have hback : t.next sign '\\' = ⟨.escaped, t.count⟩ := by
    cases h : t.stance with
    | escaped => exact absurd h ht
    | plain => simp [next, h, hs]
    | marked => simp [next, h, hs, sign.follows_backslash]
  rw [List.foldl_cons, hback]
  rfl

/-- A line end in place of a blank, with or without a guard behind it, is read alike. -/
theorem read_move (sign : Sign) (text tail : List Char) (escapes : Bool) :
    read sign (text ++ '\n' :: (Draft.tailGuard escapes tail ++ tail)) =
      read sign (text ++ ' ' :: tail) := by
  rw [read_append, read_append, List.foldl_cons, List.foldl_cons,
    next_quiet sign (c := '\n') (by decide), next_quiet sign (c := ' ') (by decide)]
  unfold Draft.tailGuard
  split
  · rename_i h
    cases tail with
    | nil => simp at h
    | cons c rest =>
      have hc : c ∈ Writer.opensBlock := by simpa using h.2
      have hguard := foldl_escaped sign (t := ⟨.plain, (read sign text).count⟩) (by simp) c
      rw [List.append_cons, List.foldl_append]
      refine (congrArg (rest.foldl (next sign)) hguard).trans ?_
      exact congrArg (rest.foldl (next sign)) (next_quiet sign (quiet_of_opensBlock hc) _).symm
  · rfl

end Tally

/-- Of what stands in front only a digit matters, and that only to the end of a number. -/
theorem marked_eq (prev : Option Char) (c : Char) (following : Option Char) :
    marked prev c following =
      (marked none c following || (decide (c ∈ ['.', ')']) && prev.any Char.isDigit)) := by
  simp [marked]

namespace Tally

/-- Read one character of a span. What is escaped whatever stands in front of it counts as read. -/
def put (sign : Sign) (escapes : Bool) (c : Char) (following : Option Char) (t : Tally) : Tally :=
  if escapes && MarkdownLayout.marked none c following then ⟨.plain, t.count⟩ else t.next sign c

/-- Read the characters of a span. -/
def putAll (sign : Sign) (escapes : Bool) : List Char → Tally → Tally
  | [], t => t
  | c :: rest, t => putAll sign escapes rest (t.put sign escapes c rest.head?)

/-- A span without escapes is read as it stands. -/
theorem putAll_verbatim (sign : Sign) (cs : List Char) (t : Tally) :
    t.putAll sign false cs = cs.foldl (next sign) t := by
  induction cs generalizing t with
  | nil => rfl
  | cons c rest ih => exact ih _

/-- A bracket completes the sign of an image. -/
theorem next_bracket (sign : Sign) {t : Tally} (ht : t.stance ≠ .escaped) :
    t.next sign '[' = ⟨.plain, t.count + (t.stance.isMarked && sign = .image).toNat⟩ := by
  cases hs : t.stance with
  | escaped => exact absurd hs ht
  | plain => cases sign <;> simp [next, hs, Sign.stance, Sign.mark, Stance.isMarked]
  | marked =>
    have ha : Char.isAlpha '[' = false := by decide
    cases sign <;> simp [next, hs, Sign.stance, Sign.mark, Sign.follows, Stance.isMarked, ha]

/-- An exclamation mark is the first character of the sign of an image and of no other. -/
theorem next_bang (sign : Sign) {t : Tally} (ht : t.stance ≠ .escaped) :
    t.next sign '!' = ⟨.ofMarked (sign = .image), t.count⟩ := by
  cases hs : t.stance with
  | escaped => exact absurd hs ht
  | plain => cases sign <;> simp [next, hs, Sign.stance, Sign.mark, Stance.ofMarked]
  | marked =>
    have ha : Char.isAlpha '!' = false := by decide
    cases sign <;> simp [next, hs, Sign.stance, Sign.mark, Sign.follows, Stance.ofMarked, ha]

/-- What one character of a span with escapes does. -/
theorem put_escaped (sign : Sign) {t : Tally} (ht : t.stance ≠ .escaped) (c : Char)
    (following : Option Char) :
    t.put sign true c following =
      ⟨.ofMarked (c = sign.mark && !following.any sign.follows),
        t.count + (t.stance.isMarked && sign.completes c).toNat⟩ := by
  rw [put, Bool.true_and, sign.completes_eq c following]
  cases hm : MarkdownLayout.marked none c following with
  | true =>
    have hc : (c = sign.mark && !following.any sign.follows) = false := by
      by_cases hc : c = sign.mark
      · rw [hc, sign.marked_mark] at hm
        simp [hm]
      · simp [hc]
    simp [hc, Stance.ofMarked]
  | false =>
    have hback : c ≠ '\\' := by
      rintro rfl
      simp [MarkdownLayout.marked] at hm
    have hstance : sign.stance c = .ofMarked (c = sign.mark && !following.any sign.follows) := by
      rw [Sign.stance, if_neg hback]
      by_cases hc : c = sign.mark
      · rw [hc, sign.marked_mark] at hm
        simp [hc, hm, Stance.ofMarked]
      · simp [hc, Stance.ofMarked]
    cases hs : t.stance with
    | escaped => exact absurd hs ht
    | plain => simp [next, hs, hstance, Stance.isMarked]
    | marked => simp [next, hs, hstance, Stance.isMarked]

/-- A span with escapes makes no sign of its own. It may complete one, and it may end with the first
character of one. -/
theorem putAll_escaped (sign : Sign) {cs : List Char} (hne : cs ≠ []) {t : Tally}
    (ht : t.stance ≠ .escaped) :
    t.putAll sign true cs =
      ⟨.ofMarked (cs.getLast? = some sign.mark),
        t.count + (t.stance.isMarked && cs.head?.any sign.completes).toNat⟩ := by
  induction cs generalizing t with
  | nil => exact absurd rfl hne
  | cons c rest ih =>
    have hput := put_escaped sign ht c rest.head?
    rw [putAll, hput]
    cases rest with
    | nil => simp [putAll]
    | cons d rest =>
      -- The first character of a sign is escaped when the next one of its span completes the sign.
      have hnone : ((decide (c = sign.mark) && !sign.follows d) && sign.completes d) = false := by
        rw [sign.completes_eq d none]
        cases sign.follows d <;> simp
      rw [ih (List.cons_ne_nil d rest) (Stance.ofMarked_ne_escaped _)]
      simp [hnone]

end Tally

namespace Draft

/-- The draft has no margins and owes nothing, and `t` is what a reader has seen of it. -/
structure Tallied (sign : Sign) (t : Tally) (d : Draft) : Prop where
  segments : d.segments = []
  owed : d.owed = .nothing
  read : Tally.read sign d.text = t
  start : d.atLineStart = true → t.stance = .plain

namespace Tallied

variable {sign : Sign} {t : Tally} {d : Draft}

/-- A draft that is tallied has no margins. -/
theorem margin (h : d.Tallied sign t) : d.margin = [] := by
  rw [Draft.margin, h.segments]
  rfl

/-- A line without a margin is opened without a character. -/
theorem openLine (h : d.Tallied sign t) : d.openLine.Tallied sign t := by
  by_cases hf : d.line = .fresh
  · have hs : d.atLineStart = true := by simp [atLineStart, hf]
    refine ⟨(segments_of_frame (frame_openLine d)).trans h.segments,
      (owed_of_frame (frame_openLine d)).trans h.owed, ?_, fun _ => h.start hs⟩
    rw [text_openLine_of_fresh hf, h.margin, List.append_nil]
    exact h.read
  · rw [openLine_of_ne_fresh hf]
    exact h

/-- Whatever the spelling of a character depends on, the reader takes it alike. -/
theorem foldl_spelled {escapes : Bool} (hs : escapes = true → t.stance ≠ .escaped) (c : Char)
    (following : Option Char) (d : Draft) :
    (d.spelled escapes c following).foldl (Tally.next sign) t = t.put sign escapes c following := by
  cases escapes with
  | false => rfl
  | true =>
    have hends : ∀ c ∈ ['.', ')'], c ∈ quiet := by simp [quiet]
    have hescaped := Tally.foldl_escaped sign (hs rfl) c
    rw [Tally.put, Bool.true_and]
    rcases spelled_cases true c following d with ⟨hm, _, he⟩ | ⟨hm, ho, _, he⟩ | ⟨hm, he⟩ <;>
      rw [he] <;> rw [Bool.true_and, marked_eq] at hm
    · rw [hescaped]
      rcases Bool.or_eq_true_iff.mp hm with hm | hm
      · rw [if_pos hm]
      · -- A digit in front has called for the backslash.
        have hc : c ∈ ['.', ')'] := of_decide_eq_true (Bool.and_eq_true_iff.mp hm).1
        rw [Tally.next_quiet sign (hends c hc), ite_self]
    · rw [hescaped, (Bool.or_eq_false_iff.mp hm).1, Tally.next_quiet sign (quiet_of_opensBlock ho),
        ite_self]
    · rw [(Bool.or_eq_false_iff.mp hm).1]
      rfl

/-- A blank is quiet. Where it is dropped a line has just begun, and the reader has nothing in front
either. -/
theorem placeBlank (h : d.Tallied sign t) : d.placeBlank.Tallied sign ⟨.plain, t.count⟩ := by
  cases hs : d.atLineStart with
  | true =>
    have ht : (⟨.plain, t.count⟩ : Tally) = t := by rw [← h.start hs]
    rw [placeBlank_of_atLineStart hs, ht]
    exact h
  | false =>
    refine ⟨(segments_of_frame (frame_placeBlank d)).trans h.segments,
      (owed_of_frame (frame_placeBlank d)).trans h.owed, ?_, fun _ => rfl⟩
    rw [text_placeBlank hs, Tally.read_append, h.read]
    exact Tally.next_quiet sign (by simp [quiet]) t

/-- A line end is quiet. -/
theorem endLine (h : d.Tallied sign t) : (d.endLine ['\n']).Tallied sign ⟨.plain, t.count⟩ := by
  refine ⟨h.segments, h.owed, ?_, fun _ => rfl⟩
  rw [text_endLine, Tally.read_append, h.read]
  exact Tally.next_quiet sign (by simp [quiet]) t

/-- Characters are read as they are written, on either side of the break point. -/
theorem append (h : d.Tallied sign t) (escapes : Bool) (cs : List Char) :
    (d.append escapes cs).Tallied sign (cs.foldl (Tally.next sign) t) := by
  refine ⟨(segments_of_frame (frame_append escapes cs d)).trans h.segments,
    (owed_of_frame (frame_append escapes cs d)).trans h.owed, ?_, fun hs => ?_⟩
  · rw [text_append, Tally.read_append, h.read]
  · rw [atLineStart_append] at hs
    cases hs

/-- The reader does not see that a line is broken. -/
theorem settle (h : d.Tallied sign t) : d.settle.Tallied sign t := by
  rcases settle_cases d with ⟨tail, escapes, hl, hs⟩ | ⟨hs, _⟩ <;> rw [hs]
  · have htext := text_of_loose hl
    refine ⟨h.segments, h.owed, ?_, fun hstart => ?_⟩
    · rw [text_rewind, h.margin, List.nil_append, Tally.read_move, ← htext]
      exact h.read
    · -- At the start of a line nothing has been moved, so a blank was the last character.
      rcases line_rewind_cases tail escapes d with ⟨ht, _⟩ | ⟨_, hsolid⟩
      · rw [← h.read, htext, ht, Tally.read_append, List.foldl_cons,
          Tally.next_quiet sign (c := ' ') (by simp [quiet])]
        rfl
      · simp [atLineStart, hsolid] at hstart
  · exact h

/-- What one character of a span does. -/
theorem put (h : d.Tallied sign t) {policy : Policy}
    (hs : policy.escapes = true → t.stance ≠ .escaped) (c : Char) (following : Option Char) :
    (d.put policy c following).Tallied sign (t.put sign policy.escapes c following) := by
  have hplain : ∀ c ∈ [' ', '\n'],
      t.put sign policy.escapes c following = ⟨.plain, t.count⟩ := by
    intro c hc
    have hquiet : c ∈ quiet ∧ MarkdownLayout.marked none c following = false := by
      simp only [List.mem_cons, List.not_mem_nil, or_false] at hc
      rcases hc with rfl | rfl <;> simp [quiet, marked]
    rw [Tally.put, hquiet.2, Bool.and_false, if_neg (by simp), Tally.next_quiet sign hquiet.1]
  refine settle ?_
  rcases place_cases policy c following d.openLine with ⟨rfl, hp⟩ | ⟨rfl, hp⟩ | ⟨_, hp⟩ <;> rw [hp]
  · rw [hplain ' ' (by simp)]
    exact h.openLine.placeBlank
  · rw [hplain '\n' (by simp)]
    exact h.openLine.endLine
  · rw [← foldl_spelled hs c following d.openLine]
    exact h.openLine.append _ _

/-- What the characters of a span do. -/
theorem putAll (h : d.Tallied sign t) (policy : Policy)
    (hs : policy.escapes = true → t.stance ≠ .escaped) (cs : List Char) :
    (d.putAll policy cs).Tallied sign (t.putAll sign policy.escapes cs) := by
  induction cs generalizing d t with
  | nil => exact h
  | cons c rest ih =>
    refine ih (h.put hs c rest.head?) fun he => ?_
    rw [he, Tally.put_escaped sign (hs he)]
    exact Stance.ofMarked_ne_escaped _

/-- What a span does. -/
theorem emit (h : d.Tallied sign t) (policy : Policy)
    (hs : policy.escapes = true → t.stance ≠ .escaped) (span : String) :
    (d.emit policy span).Tallied sign
      (t.putAll sign policy.escapes (charsOf (d.effective policy) span)) := by
  have hflush : d.flush = d := if_pos h.owed
  rw [Draft.emit, hflush]
  exact h.putAll (d.effective policy) hs _

end Tallied

end Draft

end MarkdownLayout
