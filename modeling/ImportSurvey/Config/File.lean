import ImportSurvey.Config.Basic
import ImportSurvey.Json.Parser
import ImportSurvey.Remark
import ImportSurvey.Workspace.Session
/-!
# The configuration file

Where a project keeps its configuration, and how it is read and written. Reading always gives a
configuration with every setting in place; if the file had to be corrected for that, it is written
back when possible.
-/

namespace ImportSurvey.Config

open Text Workspace

/-- The path of the configuration file in a scope. -/
def path (s : Session) : Path :=
  s.root.join (Path.parse ".gopherdeps/config.json")

/-- The path of the file to use, that of the scope unless one is named. -/
def pathOr (s : Session) (file : Option Path) : Path :=
  file.getD (path s)

def fileText (c : Config) : String :=
  c.toJson.linesText ++ "\n"

/-- Writes the configuration file; `none` if that is not possible. -/
def save? (c : Config) (s : Session) (file : Option Path) : Option Session :=
  s.writeText? (pathOr s file) c.fileText

/-- The value in a configuration file with these bytes. -/
def readBytes (bytes : Option (List UInt8)) : Except Unusable Json :=
  match bytes with
  | none => .error .cannotOpen
  | some bytes =>
    match decodeStrict? bytes with
    | none => .error .notUtf8
    | some cs =>
      match Json.parse? (foldLineEnds cs) with
      | none => .error .notJson
      | some v => .ok v

/-- The configuration as it is in the file, with what is to be said about it. A file that holds no
object counts as empty. -/
def readFile (s : Session) (file : Option Path) : Config × List Remark :=
  let p := pathOr s file
  if !s.tree.reaches (s.absolute p) then (⟨[]⟩, [])
  else
    match readBytes (s.tree.bytes? (s.absolute p)) with
    | .error why => (⟨[]⟩, [.unusableConfig p.text why])
    | .ok (.obj members) => (⟨members⟩, [])
    | .ok _ => (⟨[]⟩, [.configNotObject p.text])

structure Loaded where
  config : Config
  session : Session
  remarks : List Remark

/-- Reads the configuration and puts every setting in place, in the file too if there is one. -/
def load (s : Session) (file : Option Path) : Loaded :=
  let p := pathOr s file
  let read := readFile s file
  let config := read.1.normalize
  if read.1.isNormal || !s.tree.reaches (s.absolute p) then ⟨config, s, read.2⟩
  else
    match config.save? s p with
    | some saved => ⟨config, saved, read.2⟩
    | none => ⟨config, s, read.2 ++ [.configNotPersisted p.text]⟩

end ImportSurvey.Config
