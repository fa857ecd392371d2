import MarkdownLayout.Report

/-!
# Required packages

Which packages are at hand, and whether they are the ones that are needed. A package has a name
under which it is installed and one under which it is loaded. Whether a version meets a specifier
is for a test to say that is handed in.
-/

namespace MarkdownLayout

/-- A package that is needed. -/
structure Requirement where
  /-- The name under which the package is installed. -/
  package : String
  /-- The name under which it is loaded. -/
  module : String
  /-- The versions that do; all of them when it is empty. -/
  wanted : String
  deriving DecidableEq, Repr

/-- The packages at hand. -/
structure Inventory where
  /-- The installed packages with their versions. -/
  installed : List (String × String)
  /-- The modules that can be loaded. -/
  modules : List String
  deriving DecidableEq, Repr

/-- What a check of requirements has found. -/
structure Findings where
  /-- The packages whose module cannot be loaded. -/
  missing : List Missing := []
  /-- The packages whose version does not do. -/
  mismatched : List Mismatch := []
  /-- The first module that could not be loaded. -/
  firstMissing : Option String := none
  deriving DecidableEq, Repr

/-- Whether nothing is wrong. -/
def Findings.satisfied (f : Findings) : Bool :=
  f.missing.isEmpty && f.mismatched.isEmpty

/-- Whether a version, given first, meets a specifier. -/
abbrev VersionTest := String → String → Bool

namespace Inventory

/-- The installed version of a package. -/
def version? (i : Inventory) (package : String) : Option String :=
  i.installed.lookup package

/-- Whether a package meets a specifier; an empty one accepts whatever is installed. -/
def meets (i : Inventory) (accepts : VersionTest) (package wanted : String) : Bool :=
  match i.version? package with
  | none => false
  | some version => wanted = "" || accepts version wanted

/-- Add what is wrong with one requirement. -/
def examine (i : Inventory) (accepts : VersionTest) (f : Findings) (r : Requirement) : Findings :=
  if r.module ∉ i.modules then
    { f with
      missing := f.missing ++ [⟨r.package, r.wanted⟩]
      firstMissing := f.firstMissing.or (some r.module) }
  else if r.wanted = "" ∨ i.meets accepts r.package r.wanted then f
  else
    let installed :=
      match i.version? r.package with
      | none | some "" => "unknown"
      | some version => version
    { f with mismatched := f.mismatched ++ [⟨r.package, r.wanted, installed⟩] }

/-- What is wrong with a list of requirements. -/
def check (i : Inventory) (accepts : VersionTest) (requirements : List Requirement) : Findings :=
  requirements.foldl (i.examine accepts) {}

/-- The packages and their versions in words. -/
def describe (i : Inventory) (requirements : List Requirement) : String :=
  ", ".intercalate (requirements.map fun r =>
    match i.version? r.package with
    | none | some "" => r.package ++ " (not installed)"
    | some version => r.package ++ " " ++ version)

/-- Go on only if nothing is wrong with the requirements of a converter. -/
def demand (i : Inventory) (accepts : VersionTest) (converter : String)
    (requirements : List Requirement) : Except Failure Unit :=
  let f := i.check accepts requirements
  if f.satisfied then .ok ()
  else
    .error (.reported (.dependency converter f.missing f.mismatched)
      (f.firstMissing.map .noModule))

end Inventory

end MarkdownLayout
