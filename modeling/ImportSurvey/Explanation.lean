import ImportSurvey.Analysis
/-!
# Why a file is part of the build

The constraint of a file with the verdict that it and the file name lead to. Unlike the verdict of a
survey, an explanation reads the constraint in any case, also where the name alone decides.
-/

namespace ImportSurvey

structure Explanation where
  constraint : Option Constraint.Expr
  verdict : Verdict

namespace Explanation

/-- The verdict on a file whose constraint is known. -/
def verdictOf (tags : NameSet) (fileName : String) (constraint : Option Constraint.Expr) :
    Verdict :=
  if !Platform.nameAllows fileName tags then .excludedByFileName
  else if Constraint.holds tags constraint then .included
  else .excludedByTags

def ofSource (source : String) (tags : NameSet) (fileName : String) :
    Except Constraint.InvalidTerm Explanation :=
  (Constraint.ofSource source).map fun constraint =>
    ⟨constraint, verdictOf tags fileName constraint⟩

/-- The constraint as it is shown. -/
def constraintText (e : Explanation) : String :=
  (e.constraint.map Constraint.Expr.text).getD "(none)"

end Explanation

end ImportSurvey
