import ImportSurvey.Workspace.Cache
import ImportSurvey.Workspace.Discovery
/-!
# Sessions

A directory tree seen through nested scopes. A scope has a project root, exclusions and two caches:
of file texts, in use only while it is switched on, and of search results, which are kept until the
exclusions are set anew.
-/

namespace ImportSurvey.Workspace

/-- Remembered texts by path, `none` for a file that could not be read. -/
structure TextCache where
  enabled : Bool := false
  texts : Table String (Option String) := []

namespace TextCache

def enable (_ : TextCache) : TextCache :=
  ⟨true, []⟩

def disable (_ : TextCache) : TextCache :=
  ⟨false, []⟩

/-- The text under a path, fetched unless it is remembered, and the cache afterwards. -/
def read (c : TextCache) (fetch : String → Option String) (path : String) :
    Option String × TextCache :=
  match (if c.enabled then c.texts.get? path else none) with
  | some text => (text, c)
  | none =>
    let text := fetch path
    (text, if c.enabled then { c with texts := c.texts.put path text } else c)

end TextCache

/-- What a remembered search depends on: the path as written, whether tests count, and the
exclusions. -/
structure SearchKey where
  path : String
  tests : Bool
  exclusions : List String
deriving DecidableEq, Repr

/-- A scope; without a root of its own it has the session's. -/
structure Scope where
  root : Option Path := none
  exclusions : List String := []
  texts : TextCache := {}
  searches : Cache SearchKey (List String)

structure Session where
  tree : Directory
  home : Location
  scope : Scope
  outer : List Scope := []

namespace Session

/-- The number of searches that a scope remembers unless it is told otherwise. -/
def usualCapacity : Nat :=
  16

def newScope (root : Option Path) (capacity : Nat) : Scope :=
  { root := root, searches := ⟨capacity, []⟩ }

/-- A session in a tree, with one scope. -/
def start (tree : Directory) (home : Location) (root : Option Path) (capacity : Nat) : Session :=
  ⟨tree, home, newScope root capacity, []⟩

def root (s : Session) : Path :=
  s.scope.root.getD (Path.ofLocation s.home)

def depth (s : Session) : Nat :=
  s.outer.length + 1

def enter (s : Session) (root : Option Path) (capacity : Nat) : Session :=
  { s with scope := newScope root capacity, outer := s.scope :: s.outer }

/-- Back to the scope outside, if there is one. -/
def leave? (s : Session) : Option Session :=
  match s.outer with
  | [] => none
  | scope :: outer => some { s with scope := scope, outer := outer }

/-- A path as the process would open it. -/
def absolute (s : Session) (p : Path) : Path :=
  (Path.ofLocation s.home).join p

/-- A path as the project sees it. -/
def inProject (s : Session) (p : Path) : Path :=
  s.root.join p

/-- Where a path leads from the root, as text: parts of the root itself are not resolved when the
path is below it. -/
def rel (s : Session) (path : String) : String :=
  let l := (Path.parse path).location s.home
  if s.root.parts.isPrefixOf l then forwardSlashes (wayText (l.drop s.root.parts.length))
  else relativeText (s.root.location s.home) l

/-- The location of a path in the project, as text. -/
def resolvePath (s : Session) (path : String) : String :=
  (Path.ofLocation ((s.inProject (Path.parse path)).location s.home)).text

def setExclusions (s : Session) (exclusions : List String) : Session :=
  { s with scope := { s.scope with
      exclusions := exclusions, searches := s.scope.searches.clear } }

def enableTexts (s : Session) : Session :=
  { s with scope := { s.scope with texts := s.scope.texts.enable } }

def disableTexts (s : Session) : Session :=
  { s with scope := { s.scope with texts := s.scope.texts.disable } }

/-- The text of the file at a path, through the cache of the scope. -/
def readText (s : Session) (path : String) : Option String × Session :=
  let read := s.scope.texts.read (fun p => s.tree.text? (s.absolute (Path.parse p))) path
  (read.1, { s with scope := { s.scope with texts := read.2 } })

/-- What a search finds at this moment. -/
def searchNow (s : Session) (path : String) (tests : Bool) : List String :=
  goFiles s.tree ⟨s.root.location s.home, tests, s.scope.exclusions⟩
    (s.inProject (Path.parse path))

/-- What a search finds, through the cache of the scope. -/
def search (s : Session) (path : String) (tests : Bool) :
    Except CacheError (List String × Session) :=
  let key : SearchKey := ⟨path, tests, s.scope.exclusions⟩
  match s.scope.searches.get? key with
  | some files => .ok (files, s)
  | none =>
    let files := s.searchNow path tests
    (s.scope.searches.put key files).map fun searches =>
      (files, { s with scope := { s.scope with searches := searches } })

/-- Stores a text at a path, making directories as needed; `none` if that is not possible. -/
def writeText? (s : Session) (p : Path) (text : String) : Option Session := do
  let target := s.absolute p
  let tree ← s.tree.makeWay? [] target.parts.dropLast
  let tree ← tree.store? (target.location []) (some (Text.encode text.toList))
  return { s with tree := tree }

end Session

end ImportSurvey.Workspace
