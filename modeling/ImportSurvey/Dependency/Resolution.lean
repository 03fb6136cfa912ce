import ImportSurvey.Dependency.Pin
import ImportSurvey.Dependency.Provider
/-!
# Resolving imports

Import paths are grouped by the root that provides them, and each root becomes one dependency with
all its packages. A pin that covers a path of unknown origin makes its own name the root.
-/

namespace ImportSurvey

/-- A root and everything that is imported from it. -/
structure Dependency where
  name : String
  kind : Dependency.Kind
  version : Option String := none
  url : Option String := none
  commit : Option String := none
  tag : Option String := none
  packages : NameSet := ∅
deriving DecidableEq

namespace Dependency

/-- What resolution depends on besides the paths: the project's module path and the pins. -/
structure Context where
  modulePath : Option String := none
  pins : List Pin := []
deriving DecidableEq, Repr

/-- A place to fetch from, an empty one counting as none. -/
def urlOr (url : Option String) (other : Option String) : Option String :=
  (url.filter (· != "")).or other

/-- The provider of an import path, pins considered. -/
def providerOf (context : Context) (path : String) : Provider :=
  let provider := Provider.ofPath context.modulePath path
  if provider.kind = .unknown then
    match pinFor? context.pins path with
    | some pin => ⟨path, pin.name, .git, urlOr pin.url (some ("https://" ++ pin.name))⟩
    | none => provider
  else provider

/-- The dependency, still without packages, that a provider of some kind stands for. -/
def ofProvider (context : Context) (kind : Kind) (provider : Provider) : Dependency :=
  if kind = .git then
    match pinFor? context.pins provider.root with
    | some pin =>
      { name := provider.root, kind := .git, version := pin.version,
        url := urlOr pin.url provider.url, commit := pin.commit, tag := pin.tag }
    | none =>
      { name := provider.root, kind := .git, version := some newestCommit, url := provider.url,
        commit := some newestCommit }
  else { name := provider.root, kind := kind }

/-- Adds a path to the table of dependencies, whose keys are the roots. -/
def addPath (context : Context) (table : Table String Dependency) (path : String) :
    Table String Dependency :=
  let provider := providerOf context path
  table.update provider.root (ofProvider context provider.kind provider) fun d =>
    { d with packages := d.packages.insert path }

/-- The dependencies that provide some paths, in the order of the first path of each. -/
def resolve (context : Context) (paths : NameSet) : Table String Dependency :=
  paths.names.foldl (addPath context) []

end Dependency

end ImportSurvey
