import MarkdownLayout.Proofs.Records

/-!
# What a target receives

A document that is written to a target can be had back from it: from the file that a path or an open
file leads to, from what a stream in memory holds, or from the one call of a writer.
`Target.received` says how, and `Target.exists_deliver` that it is what was written. The place that
a path leads to depends on the directories alone, so it stays the same while files are written.
-/

namespace MarkdownLayout

theorem ok_of_mapError {ε ε' α : Type} {f : ε → ε'} {result : Except ε α} {a : α}
    (h : result.mapError f = .ok a) : result = .ok a := by
  cases result <;> cases h
  rfl

namespace Disk

/-- What is at a place that is no directory. -/
def spotAt (d : Disk) (location : Location) : Spot :=
  match d.file? location with
  | some octets => .file location octets
  | none => .free location

/-- Names that lead to a place lead there on every disk with the same directories. -/
theorem follow_of_place {d d' : Disk} (hdirectories : d'.directories = d.directories)
    {start location : Location} {names : List String}
    (h : (d.follow start names).bind Spot.place = .ok location) :
    d'.follow start names = .ok (d'.spotAt location) := by
  induction names generalizing start with
  | nil => cases h
  | cons name rest ih =>
    unfold follow at h ⊢
    by_cases hup : name = ".."
    · rw [if_pos hup] at h ⊢
      exact ih h
    rw [if_neg hup] at h ⊢
    by_cases hstay : name = "."
    · rw [if_pos hstay] at h ⊢
      exact ih h
    rw [if_neg hstay] at h ⊢
    by_cases hlong : maxName < (Text.Utf8.octets name).length
    · rw [if_pos hlong] at h
      cases h
    rw [if_neg hlong] at h ⊢
    dsimp only at h ⊢
    rw [hdirectories]
    by_cases hhere : start ++ [name] = Location.root ∨ start ++ [name] ∈ d.directories
    · rw [if_pos hhere] at h ⊢
      exact ih h
    rw [if_neg hhere] at h ⊢
    -- The way ends here, since nothing can be found below a file or a free name.
    have hend : rest = [] ∧ location = start ++ [name] := by
      cases hfile : d.file? (start ++ [name]) <;> cases rest <;> rw [hfile] at h <;> cases h <;>
        exact ⟨rfl, rfl⟩
    rw [hend.1, hend.2, spotAt]
    cases d'.file? (start ++ [name]) <;> rfl

/-- A path that leads to a place is followed by names. -/
theorem followNamed_of_place {d d' : Disk} (hdirectories : d'.directories = d.directories)
    {shown : String} {start location : Location} {names : List String}
    (h : (d.followNamed shown start names).bind Spot.place = .ok location) :
    d'.followNamed shown start names = .ok (d'.spotAt location) := by
  unfold followNamed at h ⊢
  split at h
  · cases h
  · rename_i hnull
    rw [if_neg hnull]
    split at h
    · cases h
    · rename_i hempty
      rw [if_neg hempty]
      split at h
      · cases h
      · rename_i hlong
        rw [if_neg hlong]
        exact follow_of_place hdirectories h

theorem place_spotAt (d : Disk) (location : Location) :
    Spot.place (d.spotAt location) = .ok location := by
  unfold spotAt
  split <;> rfl

namespace SameBut

variable {place : Option Location} {d d' : Disk} {location : Location}

theorem startOf (h : d.SameBut place d') (path : Path) : d'.startOf path = d.startOf path := by
  rw [Disk.startOf, Disk.startOf, h.home]

/-- A path leads to the same place as before, and to what is there now. -/
theorem locate (h : d.SameBut place d') {path : Path} (hplace : d.placeFor path = .ok location) :
    d'.locate path = .ok (d'.spotAt location) := by
  rw [Disk.locate, h.startOf]
  exact followNamed_of_place h.directories (ok_of_mapError hplace)

theorem placeFor (h : d.SameBut place d') {path : Path} (hplace : d.placeFor path = .ok location) :
    d'.placeFor path = .ok location := by
  rw [Disk.placeFor, h.locate hplace]
  show (Spot.place (d'.spotAt location)).mapError _ = _
  rw [place_spotAt]
  rfl

/-- A name that is taken as it is written leads to the same place as before. -/
theorem placeAsWritten (h : d.SameBut place d') {name : String}
    (hplace : d.placeAsWritten name = .ok location) : d'.placeAsWritten name = .ok location := by
  unfold Disk.placeAsWritten at hplace ⊢
  have hspot := ok_of_mapError hplace
  dsimp only
  rw [h.startOf]
  by_cases hslash : name.toList.getLast? = some '/'
  · -- A slash at the end asks for a directory, where no file can be made.
    rw [if_pos hslash] at hspot
    generalize d.followNamed name _ _ = result at hspot
    cases result with
    | error cause => cases hspot
    | ok spot => cases spot <;> cases hspot
  · rw [if_neg hslash] at hspot ⊢
    rw [followNamed_of_place h.directories hspot]
    show (Spot.place (d'.spotAt location)).mapError _ = _
    rw [place_spotAt]
    rfl

end SameBut

/-- The file at the place that a path leads to is read. -/
theorem read_of_placeFor {d : Disk} {path : Path} {location : Location}
    (hplace : d.placeFor path = .ok location) : (d.read path).toOption = d.file? location := by
  rw [read, (SameBut.refl none d).locate hplace, spotAt]
  cases d.file? location <;> rfl

end Disk

/-- The octets of a content of the kind that is asked for: octets, or characters. -/
def Content.octetsAs? (binary : Bool) : Content → Option (List UInt8)
  | .text value => if binary then none else some (Text.Utf8.octets value)
  | .octets value => if binary then some value else none

namespace Target

/-- The octets that a target has received, if it has received something of the kind that it
takes. -/
def received (receipt : Receipt) (d : Disk) : Target → Option (List UInt8)
  | .path name => (d.read (.ofString name)).toOption
  | .textFile name | .octetFile name => (d.placeAsWritten name).toOption.bind d.file?
  | .textMemory =>
    match receipt with
    | .memory content => content.octetsAs? false
    | _ => none
  | .octetMemory =>
    match receipt with
    | .memory content => content.octetsAs? true
    | _ => none
  | .writer mode =>
    match receipt with
    | .calls [content] => content.octetsAs? (takesOctets mode)
    | _ => none
  | .value _ => none

/-- A target can be written to, and the journal is not written to the same file. -/
def Ready (s : Session) : Target → Prop
  | .path name =>
    ∃ location, s.disk.placeFor (.ofString name) = .ok location ∧ s.journal.file ≠ some location
  | .textFile name | .octetFile name =>
    ∃ location, s.disk.placeAsWritten name = .ok location ∧ s.journal.file ≠ some location
  | .textMemory | .octetMemory | .writer _ => True
  | .value _ => False

variable {target : Target} {s s' : Session}

/-- A target can still be written to when files have been written. -/
theorem Ready.of_sameBut (h : target.Ready s) {place : Option Location}
    (hdisk : s.disk.SameBut place s'.disk) (hjournal : s'.journal.file = s.journal.file) :
    target.Ready s' := by
  cases target with
  | path name =>
    obtain ⟨location, hplace, hfree⟩ := h
    exact ⟨location, hdisk.placeFor hplace, hjournal ▸ hfree⟩
  | textFile name | octetFile name =>
    obtain ⟨location, hplace, hfree⟩ := h
    exact ⟨location, hdisk.placeAsWritten hplace, hjournal ▸ hfree⟩
  | textMemory | octetMemory | writer mode | value v => exact h

theorem Ready.of_noted (h : target.Ready s) (hnoted : s.Noted s') : target.Ready s' :=
  h.of_sameBut hnoted.disk hnoted.file

/-- Records do not change what a target has received. -/
theorem received_of_noted (h : target.Ready s) (hnoted : s.Noted s') (receipt : Receipt) :
    target.received receipt s'.disk = target.received receipt s.disk := by
  cases target with
  | path name =>
    obtain ⟨location, hplace, hfree⟩ := h
    have hafter : (Target.path name).received receipt s'.disk = s'.disk.file? location :=
      Disk.read_of_placeFor (hnoted.disk.placeFor hplace)
    have hbefore : (Target.path name).received receipt s.disk = s.disk.file? location :=
      Disk.read_of_placeFor hplace
    rw [hafter, hbefore]
    exact hnoted.disk.file? location fun he => hfree he.symm
  | textFile name | octetFile name =>
    obtain ⟨location, hplace, hfree⟩ := h
    show (s'.disk.placeAsWritten name).toOption.bind s'.disk.file? =
      (s.disk.placeAsWritten name).toOption.bind s.disk.file?
    rw [hplace, hnoted.disk.placeAsWritten hplace]
    exact hnoted.disk.file? location fun he => hfree he.symm
  | textMemory | octetMemory | writer mode | value v => rfl

/-- An open file is given octets. -/
theorem putInto_of_place {d : Disk} {name : String} {location : Location}
    (hplace : d.placeAsWritten name = .ok location) (octets : List UInt8) :
    putInto name octets d = .ok () (d.setFile location octets) := by
  rw [putInto, hplace]

/-- A target is opened, and can be written to then. -/
theorem exists_open (h : target.Ready s) :
    ∃ s', Run.onDisk target.open s = .ok () s' ∧ target.Ready s' := by
  cases target with
  | textFile name | octetFile name =>
    obtain ⟨location, hplace, _⟩ := id h
    refine ⟨{ s with disk := s.disk.setFile location [] }, ?_,
      h.of_sameBut (Disk.SameBut.setFile s.disk location []) rfl⟩
    simp only [Run.onDisk, Target.open, putInto_of_place hplace]
  | path name | textMemory | octetMemory | writer mode | value v => exact ⟨s, rfl, h⟩

/-- A stream of characters is given the text that octets write. -/
theorem forStream_text (text : String) :
    (Content.octets (Text.Utf8.octets text)).forStream false = .ok (.text text) := by
  rw [Content.forStream, if_neg Bool.false_ne_true, Content.toText, decodeText,
    Text.Utf8.text_octets]
  rfl

/-- An open file takes the octets of a text, whether it is given octets or characters. -/
theorem deliver_of_place {d : Disk} {name : String} {location : Location}
    (hplace : d.placeAsWritten name = .ok location) (text : String)
    (htarget : target = .textFile name ∨ target = .octetFile name) :
    target.deliver (.octets (Text.Utf8.octets text)) d =
      .ok .nothing (d.setFile location (Text.Utf8.octets text)) := by
  have hput := putInto_of_place hplace (Text.Utf8.octets text)
  have hwritten : (putInto name (Text.Utf8.octets text) >>= fun _ => pure Receipt.nothing) d =
      .ok .nothing (d.setFile location (Text.Utf8.octets text)) :=
    bind_of_ok hput
  rcases htarget with rfl | rfl
  · rw [deliver, forStream_text]
    exact hwritten
  · exact hwritten

/-- What is written to a target is what it has received. -/
theorem exists_deliver (h : target.Ready s) (text : String) :
    ∃ receipt s', Run.onDisk (target.deliver (.octets (Text.Utf8.octets text))) s = .ok receipt s' ∧
      target.Ready s' ∧ target.received receipt s'.disk = some (Text.Utf8.octets text) := by
  -- Files are written; all else is kept in memory and leaves the disk alone.
  cases target with
  | path name =>
    obtain ⟨location, hplace, _⟩ := id h
    have hsame := Disk.SameBut.setFile s.disk location (Text.Utf8.octets text)
    refine ⟨.nothing, { s with disk := s.disk.setFile location (Text.Utf8.octets text) }, ?_,
      h.of_sameBut hsame rfl, ?_⟩
    · simp only [Run.onDisk, deliver, writeToPath, Content.toOctets, Disk.write, hplace, Except.map]
    · show (Disk.read _ _).toOption = _
      rw [Disk.read_of_placeFor (hsame.placeFor hplace), Disk.file?_setFile, if_pos rfl]
  | textFile name | octetFile name =>
    obtain ⟨location, hplace, _⟩ := id h
    have hsame := Disk.SameBut.setFile s.disk location (Text.Utf8.octets text)
    refine ⟨.nothing, { s with disk := s.disk.setFile location (Text.Utf8.octets text) }, ?_,
      h.of_sameBut hsame rfl, ?_⟩
    · rw [Run.onDisk, deliver_of_place hplace text (by simp)]
    · show (Disk.placeAsWritten _ name).toOption.bind _ = _
      rw [hsame.placeAsWritten hplace]
      show Disk.file? _ location = _
      rw [Disk.file?_setFile, if_pos rfl]
  | textMemory =>
    refine ⟨.memory (.text text), s, ?_, h, rfl⟩
    rw [Run.onDisk, deliver, forStream_text]
    rfl
  | octetMemory => exact ⟨_, s, rfl, h, rfl⟩
  | writer mode =>
    cases hmode : takesOctets mode with
    | true =>
      refine ⟨.calls [.octets (Text.Utf8.octets text)], s, ?_, h, ?_⟩
      · rw [Run.onDisk, deliver, hmode]
        rfl
      · rw [received, hmode]
        rfl
    | false =>
      refine ⟨.calls [.text text], s, ?_, h, ?_⟩
      · rw [Run.onDisk, deliver, hmode, forStream_text]
        rfl
      · rw [received, hmode]
        rfl
  | value v => exact absurd h id

end Target

end MarkdownLayout
