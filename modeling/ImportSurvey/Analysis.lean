import ImportSurvey.Constraint.OfSource
import ImportSurvey.Platform.FileName
import ImportSurvey.Source.Imports
/-!
# Verdict on a file

Whether a file is part of the build under a set of tags, and its imports if so. The file name is
asked first, then the constraints, and only the text of an included file is scanned for imports.
-/

namespace ImportSurvey

inductive Verdict
  | included
  | excludedByTags
  | excludedByFileName
deriving DecidableEq, Repr

def Verdict.name : Verdict → String
  | included => "included"
  | excludedByTags => "excluded_by_tags"
  | excludedByFileName => "excluded_by_filename"

structure FileReport where
  verdict : Verdict
  imports : List String
  package : Option String
deriving DecidableEq, Repr

namespace FileReport

def isIncluded (r : FileReport) : Bool :=
  r.verdict == .included

def excluded (verdict : Verdict) : FileReport :=
  ⟨verdict, [], none⟩

/-- The report on a file that is part of the build. A text without a readable head has no imports
and no package. -/
def ofIncluded (source : String) : FileReport :=
  match Source.head? source with
  | some head => ⟨.included, head.imports, some head.package⟩
  | none => ⟨.included, [], none⟩

end FileReport

/-- The verdict on a source text; without a file name the text alone decides. -/
def analyze (source : String) (tags : NameSet) (fileName : Option String) :
    Except Constraint.InvalidTerm FileReport :=
  if fileName.all (Platform.nameAllows · tags) then
    (Constraint.evaluate source tags).map fun satisfied =>
      if satisfied then .ofIncluded source else .excluded .excludedByTags
  else .ok (.excluded .excludedByFileName)

/-- Where an extractor takes its tags from: a set fixed when it was made, or whatever is current
when it is asked. -/
inductive TagSource
  | fixed (tags : NameSet)
  | current
deriving DecidableEq

/-- The tags in force, `now` being the current ones. -/
def TagSource.tags (now : NameSet) : TagSource → NameSet
  | fixed tags => tags
  | current => now

/-- The imports of a source text under some tags, none if its constraints exclude it. -/
def extractImports (source : String) (tags : NameSet) :
    Except Constraint.InvalidTerm (List String) :=
  (analyze source tags none).map (·.imports)

end ImportSurvey
