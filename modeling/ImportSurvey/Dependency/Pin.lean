import ImportSurvey.Json.Printer
import ImportSurvey.NameSet
import ImportSurvey.Text.Blank
import ImportSurvey.Text.Elements
/-!
# Pins

A pin fixes what is fetched for the import paths that its name covers: a commit, a tag, a branch
and a place to fetch from. It is written as a commit alone or as a table. A pin with neither commit
nor tag follows the newest commit.
-/

namespace ImportSurvey.Dependency

open Text

/-- The commit of a dependency that follows the newest one. -/
def newestCommit : String :=
  "NEWEST_COMMIT"

structure Pin where
  name : String
  url : Option String := none
  commit : Option String := none
  tag : Option String := none
  branch : Option String := none
deriving DecidableEq, Repr

inductive PinError
  | blankName
  | notATable (name typeName : String)
  | unknownKeys (name : String) (keys : List String)
  | notAString (name key : String)
deriving DecidableEq, Repr

def PinError.message : PinError → String
  | blankName => "Dependency notation needs a non-empty name"
  | notATable name typeName =>
    "Notation for " ++ quoted name ++ " must be a string or mapping, got " ++ typeName
  | unknownKeys name keys =>
    "Unknown notation keys for " ++ quoted name ++ ": " ++ ", ".intercalate keys
  | notAString name key => quoted key ++ " for " ++ quoted name ++ " must be a string"

namespace Pin

/-- The version of a pinned dependency is its commit. -/
def version (p : Pin) : Option String :=
  p.commit

def setVersion (p : Pin) (version : String) : Pin :=
  { p with commit := some version }

def keys : List String :=
  ["url", "commit", "tag", "branch"]

/-- The fields that are present, under their keys. -/
def fields (p : Pin) : List (String × String) :=
  [("url", p.url), ("commit", p.commit), ("tag", p.tag), ("branch", p.branch)].filterMap
    fun (key, value) => value.map (key, ·)

/-- How messages call a type of value. -/
def typeName : Json → String
  | .null => "null"
  | .bool _ => "bool"
  | .int _ => "int"
  | .float _ => "float"
  | .str _ => "str"
  | .arr _ => "list"
  | .obj _ => "dict"

/-- One field of a written table. An empty text counts as absent, a blank one as empty. -/
def field (name : String) (table : Json) (key : String) : Except PinError (Option String) :=
  match table.member? key with
  | none | some .null => .ok none
  | some (.str s) => .ok (if s == "" then none else some (trimmed s))
  | some _ => .error (.notAString name key)

def ofCommit (name commit : String) : Pin :=
  ⟨name, none, some (if trimmed commit == "" then newestCommit else trimmed commit), none, none⟩

def ofTable (name : String) (members : List (String × Json)) : Except PinError Pin := do
  let strange := (NameSet.ofList (members.map Prod.fst)).names.filter fun k => !keys.contains k
  if !strange.isEmpty then throw (.unknownKeys name strange)
  let url ← field name (.obj members) "url"
  let commit ← field name (.obj members) "commit"
  let tag ← field name (.obj members) "tag"
  let branch ← field name (.obj members) "branch"
  let commit := if commit.isNone && tag.isNone then some newestCommit else commit
  return ⟨name, url, commit, tag, branch⟩

/-- The pin that a written value gives to a name. -/
def ofJson (name : String) (written : Json) : Except PinError Pin :=
  if trimmed name == "" then .error .blankName
  else
    match written with
    | .null => .ok ⟨name, none, some newestCommit, none, none⟩
    | .str commit => .ok (ofCommit name commit)
    | .obj members => ofTable name members
    | other => .error (.notATable name (typeName other))

/-- The pin written as a name, or as a name, an at sign and a commit. -/
def parse (text : String) : Except PinError Pin :=
  let cs := trim text.toList
  let commit := String.ofList ((cs.dropWhile (· != '@')).drop 1)
  ofJson (String.ofList (cs.takeWhile (· != '@'))) (if commit == "" then .null else .str commit)

end Pin

/-- The pins of a written table of them, in its order. -/
def loadPins (members : List (String × Json)) : Except PinError (List Pin) :=
  members.mapM fun (name, written) => Pin.ofJson name written

/-- The pin with the longest name that covers a path. -/
def pinFor? (pins : List Pin) (path : String) : Option Pin :=
  pins.foldl (fun best p =>
    if covers p.name path && best.all (fun b => b.name.length < p.name.length) then some p
    else best) none

end ImportSurvey.Dependency
