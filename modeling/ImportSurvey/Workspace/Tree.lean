import ImportSurvey.Text.Utf8
import ImportSurvey.Workspace.Path
/-!
# Directory trees

Directories with their files and subdirectories. A file may be listed and yet impossible to open. A
look-up goes part by part, so every part before the last has to name a directory, those before a
parent step included.
-/

namespace ImportSurvey.Workspace

open Text

/-- The bytes of a file, `none` for one that cannot be opened. -/
abbrev Content := Option (List UInt8)

inductive Directory
  | empty
  | file (name : String) (content : Content) (rest : Directory)
  | sub (name : String) (inside rest : Directory)
deriving Repr

inductive Entry
  | file (content : Content)
  | directory (d : Directory)

namespace Directory

def entry? (name : String) : Directory → Option Entry
  | empty => none
  | file n content rest => if n = name then some (.file content) else entry? name rest
  | sub n inside rest => if n = name then some (.directory inside) else entry? name rest

/-- The entry that parts lead to from `here`, whose ancestors are `above`, the nearest first. -/
def lookup? (above : List Directory) (here : Directory) : List String → Option Entry
  | [] => some (.directory here)
  | part :: parts =>
    if part = ".." then
      match above with
      | [] => lookup? [] here parts
      | up :: above => lookup? above up parts
    else
      match here.entry? part with
      | some (.directory inside) => lookup? (here :: above) inside parts
      | some (.file content) => if parts.isEmpty then some (.file content) else none
      | none => none

/-- The entry that an absolute path leads to, seen from the top. -/
def find? (top : Directory) (p : Path) : Option Entry :=
  top.lookup? [] p.parts

def directory? (top : Directory) (p : Path) : Option Directory :=
  match top.find? p with
  | some (.directory d) => some d
  | _ => none

/-- Whether a path leads anywhere. A file that cannot be opened is a name that leads nowhere. -/
def reaches (top : Directory) (p : Path) : Bool :=
  match top.find? p with
  | none | some (.file none) => false
  | _ => true

/-- The bytes of the file that a path leads to, if it can be opened. -/
def bytes? (top : Directory) (p : Path) : Option (List UInt8) :=
  match top.find? p with
  | some (.file content) => content
  | _ => none

/-- The text of the file that a path leads to, malformed bytes replaced and line ends folded. -/
def text? (top : Directory) (p : Path) : Option String :=
  (top.bytes? p).map fun bytes => String.ofList (foldLineEnds (decodeLossy bytes))

/-! ## Changes -/

def put (name : String) (e : Entry) : Directory → Directory
  | empty =>
    match e with
    | .file content => file name content empty
    | .directory d => sub name d empty
  | file n content rest =>
    if n = name then
      match e with
      | .file content => file name content rest
      | .directory d => sub name d rest
    else file n content (put name e rest)
  | sub n inside rest =>
    if n = name then
      match e with
      | .file content => file name content rest
      | .directory d => sub name d rest
    else sub n inside (put name e rest)

def erase (name : String) : Directory → Directory
  | empty => empty
  | file n content rest => if n = name then rest else file n content (erase name rest)
  | sub n inside rest => if n = name then rest else sub n inside (erase name rest)

/-- Changes the directory at a location, which is made if it is missing; `none` if a file stands in
the way or the change fails. -/
def change? (f : Directory → Option Directory) (here : Directory) : Location → Option Directory
  | [] => f here
  | name :: names =>
    match here.entry? name with
    | some (.file _) => none
    | some (.directory inside) =>
      (inside.change? f names).map fun d => here.put name (.directory d)
    | none => (empty.change? f names).map fun d => here.put name (.directory d)

/-- Stores a file at a location, unless a directory is there. -/
def store? (top : Directory) (l : Location) (content : Content) : Option Directory :=
  match l.getLast? with
  | none => none
  | some name =>
    top.change? (fun d =>
      match d.entry? name with
      | some (.directory _) => none
      | _ => some (d.put name (.file content))) l.dropLast

/-- Makes a directory with all that lead to it. -/
def makeDirectory? (top : Directory) (l : Location) : Option Directory :=
  top.change? some l

/-- Makes all directories that parts lead through from a location, those before a parent step
included. -/
def makeWay? (top : Directory) (here : Location) : List String → Option Directory
  | [] => some top
  | part :: parts =>
    let next := Path.step here part
    (top.makeDirectory? next).bind fun top => top.makeWay? next parts

/-- Removes the entry at a location, if there is one. -/
def remove? (top : Directory) (l : Location) : Option Directory :=
  match l.getLast?, top.lookup? [] l with
  | some name, some _ => top.change? (fun d => some (d.erase name)) l.dropLast
  | _, _ => none

end Directory

end ImportSurvey.Workspace
