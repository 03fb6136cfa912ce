import ImportSurvey.Dependency.Kind
import ImportSurvey.NameSet
import ImportSurvey.Table
import ImportSurvey.Text.Quoted
/-!
# Registry of resolvers

One resolver for each kind of import. Asking for a kind that has none first restores the built-in
resolvers of all kinds, in place of whatever was registered for them.
-/

namespace ImportSurvey.Dependency

open Text

inductive RegistryError
  | notAKind (name : String)
  | notRegistered (name : String)
deriving DecidableEq, Repr

def RegistryError.message : RegistryError → String
  | notAKind name => quoted name ++ " is not a valid DependencyKind"
  | notRegistered name => "No resolver registered for dependency kind " ++ quoted name

/-- The resolvers that are registered, `ρ` being what resolves. -/
structure Registry (ρ : Type) where
  resolvers : Table Kind ρ := []

namespace Registry

variable {ρ : Type}

def kinds (r : Registry ρ) : List String :=
  (NameSet.ofList (r.resolvers.keys.map Kind.name)).names

def clear (_ : Registry ρ) : Registry ρ :=
  ⟨[]⟩

def register (r : Registry ρ) (kindName : String) (resolver : ρ) :
    Except RegistryError (Registry ρ) :=
  match Kind.ofName? kindName with
  | some kind => .ok ⟨r.resolvers.put kind resolver⟩
  | none => .error (.notAKind kindName)

/-- Registers the built-in resolver of every kind. -/
def restore (builtin : Kind → ρ) (r : Registry ρ) : Registry ρ :=
  ⟨Kind.all.foldl (fun table kind => table.put kind (builtin kind)) r.resolvers⟩

def find? (r : Registry ρ) (kindName : String) : Option ρ :=
  (Kind.ofName? kindName).bind r.resolvers.get?

/-- The resolver of a kind, and the registry after it was asked for. -/
def get (builtin : Kind → ρ) (r : Registry ρ) (kindName : String) :
    Except RegistryError ρ × Registry ρ :=
  match r.find? kindName with
  | some resolver => (.ok resolver, r)
  | none =>
    let restored := r.restore builtin
    match restored.find? kindName with
    | some resolver => (.ok resolver, restored)
    | none => (.error (.notRegistered kindName), restored)

end Registry

end ImportSurvey.Dependency
