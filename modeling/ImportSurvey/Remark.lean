import ImportSurvey.Constraint.OfSource
import ImportSurvey.Dependency.Kind
/-!
# Remarks

What is worth telling about a run besides its results. Warnings are always shown; the rest is shown
only on request, and then every remark says how grave it is and which part of the program made it.
-/

namespace ImportSurvey

/-- Why a configuration file is of no use. -/
inductive Unusable
  | cannotOpen
  | notUtf8
  | notJson
deriving DecidableEq, Repr

def Unusable.reason : Unusable → String
  | cannotOpen => "it cannot be opened"
  | notUtf8 => "it is not UTF-8 text"
  | notJson => "it is not JSON"

inductive Remark
  | unusableConfig (path : String) (why : Unusable)
  | configNotObject (path : String)
  | configNotPersisted (path : String)
  | scanning (count : Nat) (root : String)
  | malformedDirective (text : String) (why : Constraint.Malformed)
  | skippedFile (path : String)
  | invalidConstraint (path message : String)
  | resolved (root : String) (kind : Dependency.Kind) (path : String)
  | invalidFiles (count : Nat)
deriving DecidableEq, Repr

namespace Remark

def isWarning : Remark → Bool
  | unusableConfig .. | configNotObject _ => true
  | _ => false

def message : Remark → String
  | unusableConfig path why =>
    "Config file " ++ path ++ " unreadable (" ++ why.reason ++ "). Using defaults."
  | configNotObject path => "Config file " ++ path ++ " root is not a JSON object. Using defaults."
  | configNotPersisted path =>
    "Best-effort step failed (persist normalized config to " ++ path ++ "): it cannot be written"
  | scanning count root => "Scanning " ++ toString count ++ " Go files under " ++ root
  | malformedDirective text why =>
    "Ignoring malformed //go:build line " ++ Text.quoted text ++ ": " ++ why.message
  | skippedFile path => "Skipping unreadable file " ++ path
  | invalidConstraint path message => "Invalid build constraint in " ++ path ++ ": " ++ message
  | resolved root kind path => "Resolved " ++ root ++ " as " ++ kind.name ++ " (" ++ path ++ ")"
  | invalidFiles count => toString count ++ " files had malformed build constraints"

/-- The part of the program that makes a remark. -/
def origin : Remark → String
  | unusableConfig .. | configNotObject _ | configNotPersisted _ => "gopherdeps.core.config"
  | scanning .. | skippedFile _ | invalidConstraint .. | invalidFiles _ =>
    "gopherdeps.engine.dependency_set"
  | malformedDirective .. => "gopherdeps.golang.constraints"
  | resolved .. => "gopherdeps.resolve.pipeline"

/-- The line a remark is logged as. -/
def logLine (r : Remark) : String :=
  (if r.isWarning then "WARNING " else "DEBUG ") ++ r.origin ++ ": " ++ r.message

/-- The lines that show some remarks. -/
def lines (verbose : Bool) (remarks : List Remark) : List String :=
  if verbose then remarks.map logLine else (remarks.filter isWarning).map message

end Remark

end ImportSurvey
