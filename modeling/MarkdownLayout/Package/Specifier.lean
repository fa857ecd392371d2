import MarkdownLayout.Package.Version

/-!
# Specifiers

A specifier is a list of clauses that a version has to meet. A preview meets it only where some
clause names one. The label of a build counts only for a clause that names a label itself.
-/

namespace MarkdownLayout

/-- What a clause demands of a version. -/
inductive Demand where
  /-- The version or a later one. -/
  | atLeast
  /-- A later version. -/
  | after
  /-- The version or an earlier one. -/
  | atMost
  /-- An earlier version. -/
  | before
  /-- The version. -/
  | equal
  /-- Any other version. -/
  | different
  /-- A version whose parts begin like this. -/
  | within
  /-- A version whose parts begin in another way. -/
  | outside
  /-- The version or a later one whose parts begin like the given ones. -/
  | compatible (series : List String)
  /-- The version, written exactly like this. -/
  | identical (text : String)
  deriving DecidableEq, Repr

/-- A clause of a specifier. -/
structure Clause where
  /-- What is demanded. -/
  demand : Demand
  /-- The version that the demand names. -/
  version : Version
  deriving DecidableEq, Repr

/-- Whether the parts of a version begin with the given ones. Its numbers are filled up with zeros
to be as many as those that are given. -/
def Version.beginsWith (v : Version) (start : List String) : Bool :=
  let isNumber (part : String) : Bool := part.toList.all Char.isDigit
  let numbers := v.parts.takeWhile isNumber
  let missing := (start.takeWhile isNumber).length - numbers.length
  (numbers ++ List.replicate missing "0" ++ v.parts.dropWhile isNumber).take start.length == start

namespace Clause

/-- Whether a version is the one that a clause names. -/
def names (clause : Clause) (v : Version) : Bool :=
  let v := if clause.version.label.isEmpty then v.unlabelled else v
  v.compareTo clause.version == .eq

/-- Whether a version meets a clause. An earlier version is never a preview of the named one,
unless that is a preview itself, and a later one never a later edition of the named one, unless
that is a later edition itself, nor a build of it. -/
def isMet (clause : Clause) (v : Version) : Bool :=
  let named := clause.version
  let sameBase := v.compareBase named == .eq
  let isAtLeast := v.unlabelled.compareTo named != .lt
  match clause.demand with
  | .atLeast => isAtLeast
  | .after =>
    v.compareTo named == .gt &&
      !(named.edition.isNone && v.edition.isSome && sameBase) && (v.label.isEmpty || !sameBase)
  | .atMost => v.unlabelled.compareTo named != .gt
  | .before => v.compareTo named == .lt && !(!named.isPreview && v.isPreview && sameBase)
  | .equal => clause.names v
  | .different => !clause.names v
  | .within => v.beginsWith named.parts
  | .outside => !v.beginsWith named.parts
  | .compatible series => isAtLeast && v.beginsWith series
  | .identical text => v.toText == text

/-- Whether a clause names a preview in a way that lets previews meet it. -/
def admitsPreviews (clause : Clause) : Bool :=
  clause.version.isPreview &&
    (match clause.demand with
      | .different | .within | .outside => false
      | _ => true)

/-- Cut a number off the preview that follows it in one part. -/
def splitPart (cs : List Char) : List (List Char) :=
  let number := cs.takeWhile Char.isDigit
  let mark := cs.dropWhile Char.isDigit
  let rest := mark.dropWhile Char.isLower
  if number ≠ [] ∧ ["a", "b", "c", "rc"].contains (String.ofList (mark.takeWhile Char.isLower)) ∧
      rest ≠ [] ∧ rest.all Char.isDigit then [number, mark]
  else [cs]

/-- The parts of a version as they are written, the epoch first. -/
def writtenParts (cs : List Char) : List (List Char) :=
  let (epoch, rest) := (Text.cutOnce '!' cs).getD (['0'], cs)
  epoch :: (Text.cutAt '.' rest).flatMap splitPart

/-- Whether a written part marks a version instead of counting it. -/
def isMarkPart (cs : List Char) : Bool :=
  ["dev", "a", "b", "rc", "post"].any fun mark => mark.toList.isPrefixOf cs

/-- The series to which a version belongs as it is written: its parts before the first mark, less
the last one. -/
def seriesOf (cs : List Char) : List String :=
  let kept := ((writtenParts cs).takeWhile fun part => !isMarkPart part).dropLast
  let text := kept.head?.getD [] ++ '!' :: List.intercalate ['.'] kept.tail
  match Version.ofChars? text with
  | some v => v.parts
  | none => kept.map String.ofList

/-- Read a version that is written without a label. -/
def readUnlabelled? (cs : List Char) : Option Version :=
  (Version.ofChars? cs).filter fun _ => !cs.contains '+'

/-- Read the version of a clause that demands equality or difference, which may end in a star when
it is nothing but numbers. -/
def readStarred? (whole starred : Demand) (cs : List Char) : Option Clause :=
  match cs.reverse with
  | '*' :: '.' :: rest =>
    ((readUnlabelled? rest.reverse).filter fun v => v.parts.length = v.release.length + 1 ∧
      rest.head?.any Char.isDigit).map fun v => ⟨starred, v⟩
  | _ => (Version.ofChars? cs).map fun v => ⟨whole, v⟩

/-- Read a clause of which the version has to be written exactly like this. -/
def readIdentical? (cs : List Char) : Option Clause :=
  if cs.any fun c => Text.isBlank c || c == ';' || c == ')' then none
  else
    (Version.ofChars? cs).map fun v => ⟨.identical (String.ofList (cs.map Char.toLower)), v⟩

/-- Read a clause that has no blanks around it. -/
def ofChars? : List Char → Option Clause
  | '=' :: '=' :: '=' :: rest => readIdentical? (Text.trimBoth Text.isBlank rest)
  | '=' :: '=' :: rest => readStarred? .equal .within (Text.trimBoth Text.isBlank rest)
  | '!' :: '=' :: rest => readStarred? .different .outside (Text.trimBoth Text.isBlank rest)
  | '~' :: '=' :: rest =>
    let cs := Text.trimBoth Text.isBlank rest
    (plain (.compatible (seriesOf cs)) cs).filter fun clause => 2 ≤ clause.version.release.length
  | '>' :: '=' :: rest => plain .atLeast (Text.trimBoth Text.isBlank rest)
  | '<' :: '=' :: rest => plain .atMost (Text.trimBoth Text.isBlank rest)
  | '>' :: rest => plain .after (Text.trimBoth Text.isBlank rest)
  | '<' :: rest => plain .before (Text.trimBoth Text.isBlank rest)
  | _ => none
where
  /-- A clause whose version has neither star nor label. -/
  plain (demand : Demand) (cs : List Char) : Option Clause :=
    (readUnlabelled? cs).map fun v => ⟨demand, v⟩

end Clause

/-- Read a specifier: clauses between commas, of which blank ones are left out. -/
def readSpecifier? (s : String) : Option (List Clause) :=
  let written := (Text.cutAt ',' s.toList).map (Text.trimBoth Text.isBlank)
  (written.filter (· ≠ [])).mapM Clause.ofChars?

/-- Whether a version meets all clauses. -/
def meetsAll (clauses : List Clause) (v : Version) : Bool :=
  (!v.isPreview || clauses.any (·.admitsPreviews)) && clauses.all (·.isMet v)

/-- Whether the version that a text names meets the specifier that a text writes. -/
def versionMeets (version specifier : String) : Bool :=
  match Version.ofString? version, readSpecifier? specifier with
  | some v, some clauses => meetsAll clauses v
  | _, _ => false

end MarkdownLayout
