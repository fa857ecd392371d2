import MarkdownLayout.Text.Cut
import MarkdownLayout.Text.Integer

/-!
# Versions

A version is a list of numbers, of which missing last ones count as zero. It may be counted from an
epoch, and it may be marked as a preview (alpha, beta, candidate), as a later edition of a release,
or as a state of development; previews and states of development come before the release, later
editions after it. A label tells apart builds of one version.
-/

namespace MarkdownLayout

/-- The kinds of previews, in their order. -/
inductive PreviewKind where
  /-- The first kind. -/
  | alpha
  /-- The second kind. -/
  | beta
  /-- The last kind. -/
  | candidate
  deriving DecidableEq, Repr

/-- The place of a kind in the order. -/
def PreviewKind.rank : PreviewKind → Nat
  | .alpha => 0
  | .beta => 1
  | .candidate => 2

/-- How a kind is written. -/
def PreviewKind.mark : PreviewKind → String
  | .alpha => "a"
  | .beta => "b"
  | .candidate => "rc"

/-- A part of a label. -/
inductive LabelPart where
  /-- A word of lower-case letters and digits. -/
  | word (text : String)
  /-- A number. -/
  | number (value : Nat)
  deriving DecidableEq, Repr

namespace LabelPart

/-- The order of parts: words come before numbers. -/
def compareTo : LabelPart → LabelPart → Ordering
  | .word s, .word t => compare s t
  | .word _, .number _ => .lt
  | .number _, .word _ => .gt
  | .number m, .number n => compare m n

/-- The part as it is written. -/
def toText : LabelPart → String
  | .word text => text
  | .number value => toString value

end LabelPart

/-- A version of a package. -/
structure Version where
  /-- The epoch, above all numbers. -/
  epoch : Nat := 0
  /-- The numbers, the most important first. -/
  release : List Nat
  /-- The preview of the release that this is, if it is one. -/
  preview : Option (PreviewKind × Nat) := none
  /-- The later edition of the release that this is, if it is one. -/
  edition : Option Nat := none
  /-- The state of development that this is, if it is one. -/
  development : Option Nat := none
  /-- The label of a build, which is empty for the version itself. -/
  label : List LabelPart := []
  deriving DecidableEq, Repr

namespace Version

/-- Compare numbers one by one; missing ones count as zero. -/
def compareRelease : List Nat → List Nat → Ordering
  | [], ns => if ns.all (· == 0) then .eq else .lt
  | m :: ms, [] => if (m :: ms).all (· == 0) then .eq else .gt
  | m :: ms, n :: ns => (compare m n).then (compareRelease ms ns)

@[simp] theorem compareRelease_self (ns : List Nat) : compareRelease ns ns = .eq := by
  induction ns with
  | nil => rfl
  | cons n ns ih => simp [compareRelease, ih]

/-- The place of a version among those of the same numbers, first by the preview: states of
development of the release itself, then the previews, then the release and its editions. -/
def previewPlace (v : Version) : Nat × Nat :=
  match v.preview with
  | some (kind, n) => (kind.rank + 1, n)
  | none => if v.edition.isNone && v.development.isSome then (0, 0) else (4, 0)

/-- The place among versions of the same preview: editions come later. -/
def editionPlace (v : Version) : Nat :=
  match v.edition with
  | none => 0
  | some n => n + 1

/-- The place among versions of the same edition: states of development come earlier. -/
def developmentPlace (v : Version) : Nat × Nat :=
  match v.development with
  | some n => (0, n)
  | none => (1, 0)

/-- Compare pairs of numbers, the first number first. -/
def comparePlace (p q : Nat × Nat) : Ordering :=
  (compare p.1 q.1).then (compare p.2 q.2)

/-- Compare labels part by part; a label that goes on comes later. -/
def compareLabel : List LabelPart → List LabelPart → Ordering
  | [], [] => .eq
  | [], _ :: _ => .lt
  | _ :: _, [] => .gt
  | p :: ps, q :: qs => (p.compareTo q).then (compareLabel ps qs)

/-- Compare epochs and numbers. -/
def compareBase (v w : Version) : Ordering :=
  (compare v.epoch w.epoch).then (compareRelease v.release w.release)

/-- The order of versions. -/
def compareTo (v w : Version) : Ordering :=
  (compareBase v w).then <|
    (comparePlace v.previewPlace w.previewPlace).then <|
    (compare v.editionPlace w.editionPlace).then <|
    (comparePlace v.developmentPlace w.developmentPlace).then (compareLabel v.label w.label)

/-- Whether a version comes before its release: as a preview or a state of development. -/
def isPreview (v : Version) : Bool :=
  v.preview.isSome || v.development.isSome

/-- The version without the label of its build. -/
def unlabelled (v : Version) : Version :=
  { v with label := [] }

/-- The parts of a version without its label: the epoch, the numbers, and what marks it. -/
def parts (v : Version) : List String :=
  [toString v.epoch] ++ v.release.map toString ++
    (v.preview.map fun (kind, n) => kind.mark ++ toString n).toList ++
    (v.edition.map fun n => "post" ++ toString n).toList ++
    (v.development.map fun n => "dev" ++ toString n).toList

/-- The version in its shortest form. -/
def toText (v : Version) : String :=
  (if v.epoch = 0 then "" else toString v.epoch ++ "!") ++
    ".".intercalate (v.release.map toString) ++
    (match v.preview with
      | some (kind, n) => kind.mark ++ toString n
      | none => "") ++
    (match v.edition with
      | some n => ".post" ++ toString n
      | none => "") ++
    (match v.development with
      | some n => ".dev" ++ toString n
      | none => "") ++
    (if v.label.isEmpty then "" else "+" ++ ".".intercalate (v.label.map LabelPart.toText))

/-- Read a number of ASCII digits. -/
def readNumber? (cs : List Char) : Option Nat :=
  if cs ≠ [] ∧ cs.all Char.isDigit then some (Text.ofAsciiDigits cs) else none

/-- Read the epoch, if one is given, and give what follows it. -/
def readEpoch (cs : List Char) : Nat × List Char :=
  match readNumber? (cs.takeWhile Char.isDigit), cs.dropWhile Char.isDigit with
  | some n, '!' :: rest => (n, rest)
  | _, _ => (0, cs)

/-- Read numbers between dots and give what follows them. -/
def readRelease? (cs : List Char) : Option (List Nat × List Char) :=
  let numeric := cs.takeWhile fun c => c.isDigit || c == '.'
  let body := (numeric.reverse.dropWhile (· == '.')).reverse
  ((Text.cutAt '.' body).mapM readNumber?).map fun release => (release, cs.drop body.length)

/-- Whether a character may stand between a mark and its number, and around both. -/
def isSeparator (c : Char) : Bool :=
  c == '-' || c == '_' || c == '.'

/-- Leave out one separator. -/
def dropSeparator : List Char → List Char
  | c :: rest => if isSeparator c then rest else c :: rest
  | [] => []

/-- Read one of some marks with its number, which is zero when left out, and give what follows. -/
def readMark? {α : Type} (marks : List (String × α)) (cs : List Char) :
    Option ((α × Nat) × List Char) :=
  let start := dropSeparator cs
  (marks.find? fun (mark, _) => mark.toList.isPrefixOf start).map fun (mark, meaning) =>
    let rest := dropSeparator (start.drop mark.length)
    ((meaning, Text.ofAsciiDigits (rest.takeWhile Char.isDigit)), rest.dropWhile Char.isDigit)

/-- The marks of previews, longer ones before those that they begin with. -/
def previewMarks : List (String × PreviewKind) :=
  [("alpha", .alpha), ("a", .alpha), ("beta", .beta), ("b", .beta), ("preview", .candidate),
    ("pre", .candidate), ("c", .candidate), ("rc", .candidate)]

/-- Read a preview, if there is one. -/
def readPreview (cs : List Char) : Option (PreviewKind × Nat) × List Char :=
  match readMark? previewMarks cs with
  | some (preview, rest) => (some preview, rest)
  | none => (none, cs)

/-- Read a later edition, if there is one: a hyphen with a number, or a mark. -/
def readEdition (cs : List Char) : Option Nat × List Char :=
  let marked :=
    match readMark? [("post", ()), ("rev", ()), ("r", ())] cs with
    | some ((_, n), rest) => (some n, rest)
    | none => (none, cs)
  match cs with
  | '-' :: rest =>
    match readNumber? (rest.takeWhile Char.isDigit) with
    | some n => (some n, rest.dropWhile Char.isDigit)
    | none => marked
  | _ => marked

/-- Read a state of development, if there is one. -/
def readDevelopment (cs : List Char) : Option Nat × List Char :=
  match readMark? [("dev", ())] cs with
  | some ((_, n), rest) => (some n, rest)
  | none => (none, cs)

/-- Read a part of a label. -/
def readLabelPart? (cs : List Char) : Option LabelPart :=
  if cs ≠ [] ∧ cs.all (fun c => c.isDigit || c.isLower) then
    some (match readNumber? cs with
      | some n => .number n
      | none => .word (String.ofList cs))
  else none

/-- Read the label that ends a version, if there is one. -/
def readLabel? : List Char → Option (List LabelPart)
  | [] => some []
  | '+' :: rest =>
    (Text.cutAt '.' (rest.map fun c => if isSeparator c then '.' else c)).mapM readLabelPart?
  | _ => none

/-- Read a version that has no blanks around it. Letters of both cases are the same. -/
def ofChars? (cs : List Char) : Option Version := do
  let cs := cs.map Char.toLower
  let (epoch, rest) := readEpoch (if cs.head? = some 'v' then cs.tail else cs)
  let (release, rest) ← readRelease? rest
  let (preview, rest) := readPreview rest
  let (edition, rest) := readEdition rest
  let (development, rest) := readDevelopment rest
  let label ← readLabel? rest
  return { epoch, release, preview, edition, development, label }

/-- Read a version with blanks around it. -/
def ofString? (s : String) : Option Version :=
  ofChars? (Text.trimBoth Text.isBlank s.toList)

end Version

end MarkdownLayout
