import MarkdownLayout.Text.Cut

/-!
# Paths

A path names a file by the directories that lead to it. Empty parts, single dots and a slash at
the end carry no meaning and are dropped; double dots stay, as they are followed on the disk.
-/

namespace MarkdownLayout

/-- The name of a file or a directory. -/
structure Path where
  /-- What stands in front of the parts: nothing, or the slashes of an absolute path. -/
  root : String
  /-- The names that lead to the file. -/
  parts : List String
  deriving DecidableEq, Repr, Inhabited

namespace Path

/-- The slashes that make a path absolute; exactly two of them are kept. -/
def rootOf : List Char → String
  | ['/', '/'] => "//"
  | '/' :: '/' :: c :: _ => if c = '/' then "/" else "//"
  | '/' :: _ => "/"
  | _ => ""

/-- Read a path. -/
def ofString (name : String) : Path :=
  { root := rootOf name.toList
    parts := ((Text.cutAt '/' name.toList).map String.ofList).filter fun part =>
      part ≠ "" ∧ part ≠ "." }

/-- The path as it is shown; the working directory is a dot. -/
def toString (path : Path) : String :=
  if path.root = "" ∧ path.parts = [] then "." else path.root ++ "/".intercalate path.parts

/-- Follow double dots by name alone. -/
def collapse : List String → List String → List String
  | done, [] => done
  | done, ".." :: rest => collapse done.dropLast rest
  | done, part :: rest => collapse (done ++ [part]) rest

end Path

end MarkdownLayout
