import ImportSurvey.Platform.Tags
/-!
# Constraints carried by file names

A file name may end in a system, an architecture, or both, set off by underscores, and then counts
only on that platform. What stands before the first underscore is free, and the name is cut at its
first dot.
-/

namespace ImportSurvey.Platform

/-- The last element of a path, either slash separating; elements that are a single dot do not
count. -/
def baseName (path : String) : List Char :=
  let elements := path.toList.splitOnP fun c => c == '/' || c == '\\'
  ((elements.filter fun e => !e.isEmpty && e != ['.']).getLast?).getD []

def isGoFile (path : String) : Bool :=
  ".go".toList.isSuffixOf path.toList

def isTestFile (path : String) : Bool :=
  "_test.go".toList.isSuffixOf (baseName path)

def dropTestMark (stem : List Char) : List Char :=
  if "_test".toList.isSuffixOf stem then stem.take (stem.length - 5) else stem

/-- The fields of a file name that may name a platform: those behind its first underscore. -/
def platformFields (path : String) : List String :=
  let stem := dropTestMark ((baseName path).takeWhile (· != '.'))
  ((stem.splitOn '_').drop 1).map String.ofList

/-- Whether fields, the last one first, allow a platform whose tags are `tags`. -/
def fieldsAllow (tags : NameSet) : List String → Bool
  | [] => true
  | [last] =>
    if isSystem last || isArchitecture last then decide (last ∈ tags) else true
  | last :: before :: _ =>
    if isSystem before && isArchitecture last then decide (before ∈ tags) && decide (last ∈ tags)
    else if isSystem last || isArchitecture last then decide (last ∈ tags)
    else true

/-- Whether a file with this name counts under a set of tags. -/
def nameAllows (path : String) (tags : NameSet) : Bool :=
  fieldsAllow tags (platformFields path).reverse

end ImportSurvey.Platform
