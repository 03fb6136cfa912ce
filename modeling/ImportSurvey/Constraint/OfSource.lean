import ImportSurvey.Constraint.GoBuild
import ImportSurvey.Constraint.PlusBuild
import ImportSurvey.Source.Lexer
/-!
# The constraint of a file

All directives among the leading comments of a source text have to hold. A term negated more than
once on any of them is an error that names the line of the first.
-/

namespace ImportSurvey.Constraint

open Source

/-- What an invalid term is reported as. -/
def InvalidTerm.message (e : InvalidTerm) : String :=
  "Invalid build constraint term " ++ Text.quoted e.term ++
    (match e.line with
      | some line => " on line " ++ toString line
      | none => "") ++ ": multiple negation"

def ofDirective (d : Directive) : Except InvalidTerm (Option Expr) :=
  match d.form with
  | .plusBuild => readPlusBuild d.text (some d.line)
  | .goBuild => readGoBuild d.text (some d.line)

/-- The constraint that a row of directives puts on a file. -/
def ofDirectives (ds : List Directive) : Except InvalidTerm (Option Expr) := do
  let read ← ds.mapM ofDirective
  return Expr.allOf (read.filterMap id)

def ofSource (source : String) : Except InvalidTerm (Option Expr) :=
  ofDirectives (directives source)

/-- Whether a source text is part of the build under a set of tags. -/
def evaluate (source : String) (tags : NameSet) : Except InvalidTerm Bool :=
  (ofSource source).map (holds tags)

/-- The directives that were read as far as the first invalid one and hold no formula although they
should, with the reason. -/
def malformedDirectives (source : String) : List (Directive × Malformed) :=
  let valid := (directives source).takeWhile fun d => (ofDirective d).isOk
  valid.filterMap fun d =>
    match d.form with
    | .plusBuild => none
    | .goBuild => (malformedGoBuild? d.text).map (d, ·)

end ImportSurvey.Constraint
