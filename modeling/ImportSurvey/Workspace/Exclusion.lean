import ImportSurvey.Text.Glob
import ImportSurvey.Workspace.Path
/-!
# Exclusions

A pattern excludes a path if it is one of its parts, if it has a star and fits one of its parts as a
wildcard, or if it has a slash and the path continues it.
-/

namespace ImportSurvey.Workspace

open Text

def dropFinalSlashes (s : String) : String :=
  String.ofList (s.toList.reverse.dropWhile (· == '/')).reverse

def matchesExclusion (path exclusion : String) : Bool :=
  let parts := (Path.parse path).components
  parts.contains exclusion ||
    (exclusion.toList.contains '*' && parts.any (matchesGlob exclusion)) ||
    (exclusion.toList.contains '/' &&
      (dropFinalSlashes exclusion ++ "/").toList.isPrefixOf path.toList)

/-- Whether any of some patterns excludes a path. -/
def isExcluded (exclusions : List String) (path : String) : Bool :=
  exclusions.any (matchesExclusion path)

end ImportSurvey.Workspace
