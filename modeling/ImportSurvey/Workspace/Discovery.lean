import ImportSurvey.Platform.FileName
import ImportSurvey.Workspace.Exclusion
import ImportSurvey.Workspace.Tree
/-!
# Finding Go files

The Go files below a directory, by their paths from the project's root. Hidden and underscored names
never count, nor do the directories that hold other people's code or data, and what the exclusions
match is left out. Excluded directories are not entered.
-/

namespace ImportSurvey.Workspace

open Platform

/-- Directories that the go tool never builds from, and those of other tools. -/
def neverEntered : List String :=
  ["vendor", "testdata", "node_modules", ".git", ".hg", ".svn", ".gopherdeps"]

/-- What a search leaves out. -/
structure Search where
  root : Location
  tests : Bool
  exclusions : List String

def isHidden (name : String) : Bool :=
  name.toList.head?.any fun c => c == '.' || c == '_'

namespace Search

/-- The path of a subdirectory as exclusions see it. -/
def directoryText (s : Search) (here : Location) (name : String) : String :=
  let text := relativeText s.root here
  if text == "." then name else text ++ "/" ++ name

def fileText (s : Search) (here : Location) (name : String) : String :=
  relativeText s.root (here ++ [name])

def entersDirectory (s : Search) (here : Location) (name : String) : Bool :=
  !(neverEntered.contains name || isHidden name || s.exclusions.contains name ||
    isExcluded s.exclusions (s.directoryText here name))

def keepsFile (s : Search) (here : Location) (name : String) : Bool :=
  isGoFile name && !isHidden name && (s.tests || !isTestFile name) &&
    !isExcluded s.exclusions (s.fileText here name)

/-- The files that a search finds in a directory at `here` and below it. -/
def filesIn (s : Search) (here : Location) : Directory → List String
  | .empty => []
  | .file name _ rest =>
    (if s.keepsFile here name then [s.fileText here name] else []) ++ s.filesIn here rest
  | .sub name inside rest =>
    (if s.entersDirectory here name then s.filesIn (here ++ [name]) inside else []) ++
      s.filesIn here rest

end Search

/-- The Go files below the directory that an absolute path leads to, in ascending order; none if
there is no such directory. -/
def goFiles (top : Directory) (s : Search) (start : Path) : List String :=
  match top.directory? start with
  | none => []
  | some d => (s.filesIn (start.location []) d).mergeSort (· ≤ ·)

end ImportSurvey.Workspace
