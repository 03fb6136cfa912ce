import ImportSurvey.Dependency.Kind
import ImportSurvey.Text.Elements
import ImportSurvey.Text.Word
/-!
# Providers of import paths

Which repository, or other origin, an import path comes from. A first element without a dot is the
standard library's; some hosts and path forms tell where the repository's root ends; everything
else is unknown.
-/

namespace ImportSurvey.Dependency

open Text

/-- The root that provides an import path, with the place to fetch it from if that is known. -/
structure Provider where
  path : String
  root : String
  kind : Kind
  url : Option String
deriving DecidableEq, Repr

/-- Hosts on which a repository is an owner and a name. -/
def ownerHosts : List String :=
  ["github.com", "bitbucket.org", "gitlab.com"]

def isRelative (path : String) : Bool :=
  covers "." path || covers ".." path

def isNameChar (c : Char) : Bool :=
  isTagChar c || c == '-'

def isUserChar (c : Char) : Bool :=
  isWord c || c == '-'

/-- Characters of which there is one at least, all of them of a class. -/
def isRun (p : Char → Bool) (cs : List Char) : Bool :=
  !cs.isEmpty && cs.all p

/-- The last element of a path may end in a line feed, which is not part of it. -/
def dropFinalNewline (isLast : Bool) (element : String) : String :=
  let cs := element.toList
  if isLast && cs.getLast? == some '\n' then String.ofList cs.dropLast else element

/-- A name, `.v` and a number. -/
def isVersioned (element : String) : Bool :=
  let reversed := element.toList.reverse
  isRun isDecimal (reversed.takeWhile isDecimal) &&
    match reversed.dropWhile isDecimal with
    | 'v' :: '.' :: name => isRun isNameChar name
    | _ => false

def git (path root url : String) : Provider :=
  ⟨path, root, .git, some url⟩

/-- A package of the language's extended library, by the elements behind the host. -/
def extendedLibrary? (path : String) : List String → Option Provider
  | "x" :: name :: rest =>
    let name := dropFinalNewline rest.isEmpty name
    if isRun isNameChar name.toList then
      some (git path (joinElements ["golang.org", "x", name])
        ("https://go.googlesource.com/" ++ name))
    else none
  | _ => none

/-- A package of the versioned redirect service, by the elements behind the host: a user if there
is one, then a versioned name. -/
def versioned? (path : String) (es : List String) : Option Provider :=
  let provided (es : List String) : Provider :=
    let root := joinElements ("gopkg.in" :: es)
    git path root ("https://" ++ root)
  let owned : Option Provider :=
    match es with
    | user :: name :: rest =>
      let name := dropFinalNewline rest.isEmpty name
      if isRun isUserChar user.toList && isVersioned name then some (provided [user, name])
      else none
    | _ => none
  let plain : Option Provider :=
    match es with
    | name :: rest =>
      let name := dropFinalNewline rest.isEmpty name
      if isVersioned name then some (provided [name]) else none
    | [] => none
  owned.or plain

/-- The elements up to and with the first that ends in `.git`. -/
def throughGitSuffix? : List String → Option (List String)
  | [] => none
  | e :: es =>
    if ".git".toList.isSuffixOf e.toList then some [e] else (throughGitSuffix? es).map (e :: ·)

/-- The provider of a path whose first element is `host`, which has a dot. -/
def hosted (path host : String) (es : List String) : Provider :=
  let unknown : Provider := ⟨path, path, .unknown, none⟩
  if ownerHosts.contains host then
    match es with
    | owner :: name :: _ =>
      let root := joinElements [host, owner, name]
      git path root ("https://" ++ root ++ ".git")
    | _ => unknown
  else
    let special :=
      if host == "golang.org" then extendedLibrary? path es
      else if host == "gopkg.in" then versioned? path es
      else none
    special.getD <|
      match throughGitSuffix? es with
      | some upTo =>
        let root := joinElements (host :: upTo)
        git path root ("https://" ++ root)
      | none => unknown

/-- The provider of an import path by its form alone, in a project with the given module path. An
empty module path counts as none. -/
def Provider.ofPath (modulePath : Option String) (path : String) : Provider :=
  if path == "C" then ⟨path, path, .pseudo, none⟩
  else if isRelative path then ⟨path, path, .project, none⟩
  else
    match modulePath.filter fun m => m != "" && covers m path with
    | some m => ⟨path, m, .project, none⟩
    | none =>
      match elements path with
      | [] => ⟨path, path, .standard, none⟩
      | host :: es =>
        if host.toList.contains '.' then hosted path host es
        else ⟨path, path, .standard, none⟩

end ImportSurvey.Dependency
