/-!
# Kinds of import

What provides an import path: the standard library, the project itself, a Git repository, the
compiler (for the pseudo package of the foreign-function interface), or something unknown.
-/

namespace ImportSurvey.Dependency

inductive Kind
  | standard
  | project
  | git
  | pseudo
  | unknown
deriving DecidableEq, Repr

namespace Kind

def all : List Kind :=
  [standard, project, git, pseudo, unknown]

def name : Kind → String
  | standard => "stdlib"
  | project => "local"
  | git => "git"
  | pseudo => "pseudo"
  | unknown => "unknown"

def ofName? (s : String) : Option Kind :=
  all.find? (·.name == s)

/-- From outside both the project and the standard library. -/
def isExternal : Kind → Bool
  | git | unknown => true
  | _ => false

@[simp] theorem ofName?_name (k : Kind) : ofName? k.name = some k := by
  cases k <;> decide

end Kind

/-- Whether a name is that of an external kind. -/
def isExternalName (s : String) : Bool :=
  (Kind.ofName? s).any Kind.isExternal

end ImportSurvey.Dependency
