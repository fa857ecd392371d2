import MarkdownLayout.Disk.Path
import MarkdownLayout.Text.Quoted
import MarkdownLayout.Text.Utf8

/-!
# The disk

Directories and files, one directory that paths start from, and what can go wrong when a path is
followed.

Writing a file either fails before anything has changed, because its path leads nowhere, or replaces
all of its content. A write that fails halfway, as on a device that is full, is not among the
states of this disk.
-/

namespace MarkdownLayout

/-- A place on the disk: the names that lead to it. The root has the empty name. -/
abbrev Location := List String

namespace Location

/-- The directory at the top. -/
def root : Location := [""]

/-- The place as it is shown. -/
def toString (location : Location) : String :=
  if location = root then "/" else "/".intercalate location

/-- The directory that a place is in; the root is in itself. -/
def up (location : Location) : Location :=
  if location = root then root else location.dropLast

end Location

/-- What is wrong with a path. -/
inductive DiskCause where
  /-- There is nothing of that name. -/
  | notFound
  /-- A file stands where a directory is needed. -/
  | notDirectory
  /-- A directory stands where a file is needed. -/
  | isDirectory
  /-- The path or one of its names is too long. -/
  | tooLong
  /-- The path holds a character that no name can hold. -/
  | nullCharacter
  deriving DecidableEq, Repr

/-- A path that could not be followed. -/
structure DiskError where
  /-- What is wrong. -/
  cause : DiskCause
  /-- The path as it is shown. -/
  name : String
  deriving DecidableEq, Repr

/-- The wording of the error. -/
def DiskError.message (e : DiskError) : String :=
  match e.cause with
  | .notFound => "[Errno 2] No such file or directory: " ++ Text.quote e.name
  | .notDirectory => "[Errno 20] Not a directory: " ++ Text.quote e.name
  | .isDirectory => "[Errno 21] Is a directory: " ++ Text.quote e.name
  | .tooLong => "[Errno 36] File name too long: " ++ Text.quote e.name
  | .nullCharacter => "embedded null byte"

/-- Directories and files. -/
structure Disk where
  /-- The working directory, which paths start from. -/
  home : Location := Location.root
  /-- The directories. -/
  directories : List Location := []
  /-- The files with their octets. -/
  files : List (Location × List UInt8) := []
  deriving DecidableEq, Repr, Inhabited

/-- What a path leads to. -/
inductive Spot where
  /-- A directory. -/
  | directory
  /-- A file. -/
  | file (location : Location) (octets : List UInt8)
  /-- A name that is free in an existing directory. -/
  | free (location : Location)
  deriving DecidableEq, Repr

namespace Disk

/-- The longest name, in octets. -/
def maxName : Nat := 255

/-- The length that no path reaches, in octets. -/
def pathLimit : Nat := 4096

/-- The octets of a file. -/
def file? (d : Disk) (location : Location) : Option (List UInt8) :=
  d.files.lookup location

/-- Give a file its octets, in the place of those it has. -/
def putFile (location : Location) (octets : List UInt8) :
    List (Location × List UInt8) → List (Location × List UInt8)
  | [] => [(location, octets)]
  | (l, old) :: rest =>
    if l = location then (l, octets) :: rest else (l, old) :: putFile location octets rest

/-- Give a file its octets. -/
def setFile (d : Disk) (location : Location) (octets : List UInt8) : Disk :=
  { d with files := putFile location octets d.files }

theorem lookup_putFile (location place : Location) (octets : List UInt8)
    (files : List (Location × List UInt8)) :
    (putFile location octets files).lookup place =
      if place = location then some octets else files.lookup place := by
  induction files with
  | nil =>
    rw [putFile]
    by_cases h : place = location
    · simp [h]
    · simp [List.lookup_cons, beq_false_of_ne h, h]
  | cons entry rest ih =>
    obtain ⟨l, old⟩ := entry
    rw [putFile]
    by_cases hl : l = location
    · subst hl
      by_cases h : place = l
      · simp [h]
      · simp [List.lookup_cons, h, beq_false_of_ne h]
    · rw [if_neg hl]
      by_cases h : place = l
      · simp [h, hl]
      · simp [List.lookup_cons, beq_false_of_ne h, ih]

/-- A file that was given octets has them, and all others keep theirs. -/
theorem file?_setFile (d : Disk) (location place : Location) (octets : List UInt8) :
    (d.setFile location octets).file? place =
      if place = location then some octets else d.file? place :=
  lookup_putFile location place octets d.files

/-- Every directory on the way to a place, the place included. -/
def waysTo : Location → List Location
  | [] => []
  | name :: rest => [name] :: (waysTo rest).map (name :: ·)

/-- Make a directory with those that lead to it. -/
def addDirectory (d : Disk) (location : Location) : Disk :=
  { d with directories := d.directories ++ waysTo location }

/-- Follow names from a directory. A single dot stays and double dots go up. -/
def follow (d : Disk) (start : Location) : List String → Except DiskCause Spot
  | [] => .ok .directory
  | name :: rest =>
    if name = ".." then d.follow start.up rest
    else if name = "." then d.follow start rest
    else if maxName < (Text.Utf8.octets name).length then .error .tooLong
    else
      let here := start ++ [name]
      if here = Location.root ∨ here ∈ d.directories then d.follow here rest
      else
        match d.file? here, rest with
        | some octets, [] => .ok (.file here octets)
        | some _, _ :: _ => .error .notDirectory
        | none, [] => .ok (.free here)
        | none, _ :: _ => .error .notFound

/-- A file that names lead to has the octets that are found there. -/
theorem file?_of_follow {d : Disk} {start location : Location} {names : List String}
    {octets : List UInt8} (h : d.follow start names = .ok (.file location octets)) :
    d.file? location = some octets := by
  induction names generalizing start with
  | nil => cases h
  | cons name rest ih =>
    unfold follow at h
    split at h
    · exact ih h
    · split at h
      · exact ih h
      · split at h
        · cases h
        · dsimp only at h
          split at h
          · exact ih h
          · split at h <;> cases h
            assumption

/-- The directory that a path starts from. -/
def startOf (d : Disk) (path : Path) : Location :=
  if path.root = "" then d.home else Location.root

/-- Follow a path that is shown by a name, once the name can be one. An empty one leads nowhere. -/
def followNamed (d : Disk) (shown : String) (start : Location) (parts : List String) :
    Except DiskCause Spot :=
  if shown.toList.contains (Char.ofNat 0) then .error .nullCharacter
  else if shown = "" then .error .notFound
  else if pathLimit ≤ (Text.Utf8.octets shown).length then .error .tooLong
  else d.follow start parts

/-- Follow a path, directory by directory. -/
def locate (d : Disk) (path : Path) : Except DiskCause Spot :=
  d.followNamed path.toString (d.startOf path) path.parts

/-- A file that a path leads to has the octets that are found there. -/
theorem file?_of_locate {d : Disk} {path : Path} {location : Location} {octets : List UInt8}
    (h : d.locate path = .ok (.file location octets)) : d.file? location = some octets := by
  unfold locate followNamed at h
  split at h
  · cases h
  · split at h
    · cases h
    · split at h
      · cases h
      · exact file?_of_follow h

/-- Whether a path leads to a file. A path that leads nowhere does not; one that is too long
cannot be asked about. -/
def isFile (d : Disk) (path : Path) : Except DiskError Bool :=
  match d.locate path with
  | .ok (.file ..) => .ok true
  | .error .tooLong => .error ⟨.tooLong, path.toString⟩
  | _ => .ok false

/-- The octets of the file at a path. -/
def read (d : Disk) (path : Path) : Except DiskError (List UInt8) :=
  match d.locate path with
  | .ok (.file _ octets) => .ok octets
  | .ok .directory => .error ⟨.isDirectory, path.toString⟩
  | .ok (.free _) => .error ⟨.notFound, path.toString⟩
  | .error cause => .error ⟨cause, path.toString⟩

/-- The place of a file that may be made there. -/
def Spot.place : Spot → Except DiskCause Location
  | .file location _ | .free location => .ok location
  | .directory => .error .isDirectory

/-- The place of the file at a path, which need not exist yet. -/
def placeFor (d : Disk) (path : Path) : Except DiskError Location :=
  ((d.locate path).bind Spot.place).mapError fun cause => ⟨cause, path.toString⟩

/-- The directory that a spot has to be. -/
def Spot.asDirectory : Spot → Except DiskCause Spot
  | .directory => .ok .directory
  | .file .. => .error .notDirectory
  | .free _ => .error .notFound

/-- The place of a file to be opened for writing under a name that is taken as it is written. A
slash at the end asks for a directory, whatever stands there. -/
def placeAsWritten (d : Disk) (name : String) : Except DiskError Location :=
  let start := d.startOf (.ofString name)
  let parts := ((Text.cutAt '/' name.toList).map String.ofList).filter (· ≠ "")
  let spot :=
    if name.toList.getLast? = some '/' then
      (d.followNamed name start parts.dropLast).bind Spot.asDirectory
    else d.followNamed name start parts
  (spot.bind Spot.place).mapError fun cause => ⟨cause, name⟩

/-- The place that a path names from the root, double dots followed by name alone. -/
def wholePlace (d : Disk) (path : Path) : Location :=
  Path.collapse (d.startOf path) path.parts

/-- The place of the file that a path names from the root. Two slashes in front of it are shown. -/
def placeFromRoot (d : Disk) (path : Path) : Except DiskError Location :=
  let whole := d.wholePlace path
  let shown := if path.root = "//" then "/" ++ whole.toString else whole.toString
  ((d.followNamed shown [] whole).bind Spot.place).mapError fun cause => ⟨cause, shown⟩

/-- Write a file at a path, in the place of the one that is there. -/
def write (d : Disk) (path : Path) (octets : List UInt8) : Except DiskError Disk :=
  (d.placeFor path).map fun location => d.setFile location octets

/-- A file that is there is written in its place. -/
theorem write_of_locate {d : Disk} {path : Path} {location : Location} {old : List UInt8}
    (h : d.locate path = .ok (.file location old)) (octets : List UInt8) :
    d.write path octets = .ok (d.setFile location octets) := by
  rw [write, placeFor, h]
  rfl

/-- Add octets to the end of a file, which is made when there is none. -/
def appendTo (d : Disk) (location : Location) (octets : List UInt8) : Disk :=
  d.setFile location ((d.file? location).getD [] ++ octets)

end Disk

end MarkdownLayout
