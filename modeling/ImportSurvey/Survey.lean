import ImportSurvey.Analysis
import ImportSurvey.Dependency.Resolution
import ImportSurvey.Graph
import ImportSurvey.Workspace.ModuleFile
import ImportSurvey.Workspace.Session
/-!
# Surveys

A survey goes through the Go files below a directory, decides the fate of each, and collects the
imports of those that are part of the build, by package directory, with the dependencies that
provide them and the graph between the two.
-/

namespace ImportSurvey

open Workspace Dependency

/-- What became of a file. -/
inductive Fate
  | included (report : FileReport)
  | excluded (verdict : Verdict)
  | invalid (error : Constraint.InvalidTerm)
  | unreadable
deriving DecidableEq, Repr

namespace Fate

/-- The fate of a file with this text, `none` if it could not be read. -/
def ofText (tags : NameSet) (fileName : String) : Option String → Fate
  | none => unreadable
  | some source =>
    match analyze source tags (some fileName) with
    | .error e => invalid e
    | .ok report => if report.isIncluded then included report else excluded report.verdict

def report? : Fate → Option FileReport
  | included report => some report
  | _ => none

def verdict? : Fate → Option Verdict
  | excluded verdict => some verdict
  | _ => none

def error? : Fate → Option Constraint.InvalidTerm
  | invalid e => some e
  | _ => none

end Fate

/-- A file with its text and its fate. -/
structure SurveyedFile where
  path : String
  text : Option String
  fate : Fate
deriving DecidableEq, Repr

/-- What to survey, and how. -/
structure Request where
  path : String := "."
  tags : NameSet := ∅
  tests : Bool := false
  modulePath : Option String := none
  pins : List Pin := []

structure Survey where
  root : String
  tags : NameSet
  modulePath : Option String
  files : List SurveyedFile
  imports : Table String NameSet
  dependencies : Table String Dependency
  graph : Graph

/-! ## Files -/

/-- The name of a file without the directories before it. -/
def fileNameOf (path : String) : String :=
  ((Text.elements path).getLast?).getD ""

/-- The directory of a file, as written before the last slash. -/
def directoryOf (path : String) : Path :=
  Path.parse (Text.joinElements (Text.elements path).dropLast)

/-- Reads a file and decides its fate. -/
def surveyFile (tags : NameSet) (s : Session) (path : String) : SurveyedFile × Session :=
  let read := s.readText (s.root.join (Path.parse path)).text
  (⟨path, read.1, Fate.ofText tags (fileNameOf path) read.1⟩, read.2)

def surveyFiles (tags : NameSet) (s : Session) : List String → List SurveyedFile × Session
  | [] => ([], s)
  | path :: paths =>
    let first := surveyFile tags s path
    let more := surveyFiles tags first.2 paths
    (first.1 :: more.1, more.2)

/-! ## Imports by package directory -/

/-- The key of a file's package: its directory as seen from the surveyed one, both of which are
given relative to the project. -/
def packageKey (home : Location) (surveyed path : String) : String :=
  wayText (wayTo ((Path.parse surveyed).location home) ((directoryOf path).location home))

def addImports (key : SurveyedFile → String) (table : Table String NameSet) (f : SurveyedFile) :
    Table String NameSet :=
  match f.fate.report? with
  | some report => table.update (key f) ∅ (· ∪ NameSet.ofList report.imports)
  | none => table

def allImports (imports : Table String NameSet) : NameSet :=
  NameSet.ofList (imports.flatMap fun e => e.2.names)

/-! ## Graph -/

/-- The package directory that an import path of the project names, the project's root being a
single dot. -/
def packageNode? (modulePath : Option String) (path : String) : Option String :=
  match modulePath with
  | none => none
  | some m =>
    if m = "" then none
    else if path = m then some "."
    else ((m ++ "/").toList.isPrefixOf? path.toList).map String.ofList

def nodeOf (context : Context) (path : String) : String :=
  (packageNode? context.modulePath path).getD (providerOf context path).root

def graphOf (context : Context) (imports : Table String NameSet) : Graph :=
  Graph.ofImports (imports.map fun e => (e.1, NameSet.ofList (e.2.names.map (nodeOf context))))

/-! ## The survey -/

/-- The directory that a request names. -/
def Request.root (r : Request) (s : Session) : Path :=
  s.inProject (Path.parse r.path)

/-- The module path that a request gives or, where it gives none, the directory declares. -/
def Request.module? (r : Request) (s : Session) : Option String :=
  r.modulePath.or (modulePath? s.tree (r.root s))

/-- Surveys what a request names. -/
def survey (s : Session) (r : Request) : Except CacheError (Survey × Session) :=
  let root := r.root s
  let context : Context := ⟨r.module? s, r.pins⟩
  (s.search root.text r.tests).map fun found =>
    let read := surveyFiles r.tags found.2 found.1
    let imports := read.1.foldl (addImports fun f => packageKey s.home (s.rel root.text) f.path) []
    (⟨root.text, r.tags, context.modulePath, read.1, imports,
      resolve context (allImports imports), graphOf context imports⟩, read.2)

namespace Survey

def included (s : Survey) : List String :=
  s.files.filterMap fun f => f.fate.report?.map fun _ => f.path

def excluded (s : Survey) : Table String Verdict :=
  Table.ofList (s.files.filterMap fun f => f.fate.verdict?.map (f.path, ·))

def invalid (s : Survey) : Table String String :=
  Table.ofList (s.files.filterMap fun f => f.fate.error?.map fun e => (f.path, e.message))

def unreadable (s : Survey) : List String :=
  (s.files.filter fun f => f.fate = .unreadable).map (·.path)

/-- The dependencies from outside the project and the standard library, by name. -/
def external (s : Survey) : List Dependency :=
  (s.dependencies.sorted.map Prod.snd).filter (·.kind.isExternal)

end Survey

end ImportSurvey
