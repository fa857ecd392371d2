import MarkdownLayout.Proofs.Draft.Octets

/-!
# Steps and runs

The operations of a writer as data, so that a run is a list of steps. A step is refused only when it
takes back a margin that is not there, and then it changes nothing: this is `act_toWriter`, from
which all that is said about runs of writers is carried over from runs of drafts.
-/

namespace MarkdownLayout

/-- An operation of a writer. -/
inductive Step where
  /-- Write a span. -/
  | emit (policy : Policy) (span : String)
  /-- Owe the next span a line of its own. -/
  | owe (owed : Owed)
  /-- Write the breaks owed. -/
  | flush
  /-- Put down a margin. -/
  | push (segment : String)
  /-- Take back the innermost margin, which must be the expected one when one is named. -/
  | pop (expected : Option String)
  /-- Keep lines whole from now on, or break them again. -/
  | keepLines (on : Bool)
  /-- Begin a line. -/
  | startLine
  /-- Change the width. -/
  | setWidth (width : Int)
  deriving DecidableEq, Repr

namespace Step

/-- What a step does to a writer. -/
def act : Step → Writing Unit
  | .emit policy span => Writer.emit policy span
  | .owe owed => modify (Writer.owe owed)
  | .flush => modify Writer.flush
  | .push segment => modify (Writer.pushMargin segment)
  | .pop expected => do let _ ← Writer.popMargin expected
  | .keepLines on => modify fun w => { w with keepsLines := on }
  | .startLine => modify Writer.startLine
  | .setWidth width => modify fun w => { w with width }

/-- The writer that a step leaves, whether or not it is refused. -/
def after (s : Step) (w : Writer) : Writer :=
  match s.act w with
  | .ok _ w' => w'
  | .error _ w' => w'

end Step

/-- The writer after a list of steps. A refused step does not end the run. -/
def Writer.run (steps : List Step) (w : Writer) : Writer :=
  steps.foldl (fun w s => s.after w) w

namespace Draft

/-- Why a step is refused, if it is. -/
def refusal (d : Draft) : Step → Option LayoutError
  | .pop expected =>
    match d.segments.getLast? with
    | none => some .marginEmpty
    | some top =>
      if expected = none ∨ expected = some top then none
      else some (.marginMismatch (expected.getD "") top d.segments.length)
  | _ => none

/-- What a step does to a draft. A refused step leaves it as it is. -/
def apply (d : Draft) : Step → Draft
  | .emit policy span => d.emit policy span
  | .owe owed => d.owe owed
  | .flush => d.flush
  | .push segment => d.pushMargin segment
  | .pop expected => if (d.refusal (.pop expected)).isSome then d else d.dropMargin
  | .keepLines on => { d with keepsLines := on }
  | .startLine => d.endLine []
  | .setWidth width => { d with width }

/-- A break is owed unless as much is owed already. -/
theorem apply_owe_cases (d : Draft) (owed : Owed) :
    d.apply (.owe owed) = { d with owed } ∨ d.apply (.owe owed) = d := by
  by_cases h : d.owed.level < owed.level
  · exact .inl (if_pos h)
  · exact .inr (if_neg h)

/-- A margin is taken back unless that is refused. -/
theorem apply_pop_cases (d : Draft) (expected : Option String) :
    d.apply (.pop expected) = d.dropMargin ∨ d.apply (.pop expected) = d := by
  by_cases h : (d.refusal (.pop expected)).isSome
  · exact .inr (if_pos h)
  · exact .inl (if_neg h)

/-- The draft after a list of steps. A refused step does not end the run. -/
def run (steps : List Step) (d : Draft) : Draft :=
  steps.foldl apply d

@[simp] theorem run_cons (s : Step) (steps : List Step) (d : Draft) :
    d.run (s :: steps) = (d.apply s).run steps := rfl

theorem run_append (steps more : List Step) (d : Draft) :
    d.run (steps ++ more) = (d.run steps).run more :=
  List.foldl_append

/-- A step on a writer is the step on the draft that it stands for. -/
theorem act_toWriter (s : Step) (d : Draft) :
    s.act d.toWriter =
      match d.refusal s with
      | some error => .error error d.toWriter
      | none => .ok () (d.apply s).toWriter := by
  cases s with
  | emit policy span => exact emit_toWriter policy span d
  | owe owed => exact congrArg (EStateM.Result.ok ()) (owe_toWriter owed d)
  | flush => exact congrArg (EStateM.Result.ok ()) (flush_toWriter d)
  | push segment => exact congrArg (EStateM.Result.ok ()) (pushMargin_toWriter segment d)
  | keepLines on => rfl
  | startLine => exact congrArg (EStateM.Result.ok ()) (startLine_toWriter d)
  | setWidth width => rfl
  | pop expected =>
    show EStateM.bind (Writer.popMargin expected) _ d.toWriter = _
    have hs : d.toWriter.segments = d.segments := rfl
    unfold EStateM.bind Writer.popMargin apply refusal
    rw [hs]
    cases hl : d.segments.getLast? with
    | none => rfl
    | some top =>
      by_cases he : expected = none ∨ expected = some top
      · simp only [if_pos he]
        exact congrArg (EStateM.Result.ok ()) (dropMargin_toWriter hl)
      · simp only [if_neg he]
        rfl

/-- The writer that a step leaves stands for the draft that it leaves. -/
theorem after_toWriter (s : Step) (d : Draft) : s.after d.toWriter = (d.apply s).toWriter := by
  unfold Step.after
  rw [act_toWriter]
  cases h : d.refusal s with
  | none => rfl
  | some error =>
    -- Only the return of a margin can be refused.
    cases s with
    | pop expected => simp [apply, h]
    | _ => cases h

/-- A run of a writer is the run of the draft that it stands for. -/
theorem run_toWriter (steps : List Step) (d : Draft) :
    d.toWriter.run steps = (d.run steps).toWriter := by
  induction steps generalizing d with
  | nil => rfl
  | cons s steps ih =>
    show Writer.run steps (s.after d.toWriter) = _
    rw [after_toWriter, ih, run_cons]

/-- Take steps until one is refused. -/
def perform (d : Draft) : List Step → Except LayoutError Draft
  | [] => .ok d
  | s :: steps =>
    match d.refusal s with
    | some error => .error error
    | none => (d.apply s).perform steps

/-- Steps none of which is refused are a run. -/
theorem run_of_perform {d d' : Draft} {steps : List Step} (h : d.perform steps = .ok d') :
    d.run steps = d' := by
  induction steps generalizing d with
  | nil =>
    cases h
    rfl
  | cons s steps ih =>
    rw [perform] at h
    split at h
    · cases h
    · exact ih h

/-- Steps on a writer, up to the first that is refused. -/
theorem forM_act_toWriter (steps : List Step) (d : Draft) :
    match d.perform steps with
    | .ok d' => steps.forM Step.act d.toWriter = .ok () d'.toWriter
    | .error error => ∃ w, steps.forM Step.act d.toWriter = .error error w := by
  induction steps generalizing d with
  | nil => rfl
  | cons s steps ih =>
    have hs := act_toWriter s d
    have hb : (s :: steps).forM Step.act d.toWriter =
        EStateM.bind s.act (fun _ => steps.forM Step.act) d.toWriter := rfl
    rw [perform, hb]
    unfold EStateM.bind
    rw [hs]
    cases d.refusal s with
    | some error => exact ⟨_, rfl⟩
    | none => exact ih (d.apply s)

namespace TailUnbroken

variable {d : Draft}

/-- What a step keeps. -/
theorem apply (h : d.TailUnbroken) (s : Step) : (d.apply s).TailUnbroken := by
  cases s with
  | emit policy span => exact h.flush.putAll _ _
  | owe owed =>
    rcases d.apply_owe_cases owed with he | he <;> rw [he]
    · exact h
    · exact h
  | flush => exact h.flush
  | pop expected =>
    rcases d.apply_pop_cases expected with he | he <;> rw [he]
    · exact h
    · exact h
  | startLine => exact endLine [] d
  | push segment | keepLines on | setWidth width => exact h

/-- What a run keeps. -/
theorem run (h : d.TailUnbroken) (steps : List Step) : (d.run steps).TailUnbroken := by
  induction steps generalizing d with
  | nil => exact h
  | cons s steps ih => exact ih (h.apply s)

end TailUnbroken

end Draft

end MarkdownLayout
