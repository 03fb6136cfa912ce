import ImportSurvey.CommandLine.Commands
/-!
# The program

Runs the command line on the directory tree around the project. The tree is read before the run and
the configuration file is written after it, so that the run itself touches nothing.
-/

namespace ImportSurvey

open Workspace CommandLine

/-- The bytes of a file, `none` if it cannot be opened. -/
def loadContent (path : String) : IO Content := do
  try
    return some (← IO.FS.readBinFile path).toList
  catch _ => return none

/-- Whether every run wants the text of a file with this name. -/
def isAlwaysRead (name : String) : Bool :=
  Platform.isGoFile name || name == "go.mod" || name == "config.json"

/-- The directory at a path with all that is below it. Links to directories are left out, and so are
directories that cannot be listed. -/
partial def loadDirectory (path : String) : IO Directory := do
  try
    let entries ← (← IO.FS.realPath path).readDir
    entries.foldlM (fun d entry => do
      let inside := path ++ "/" ++ entry.fileName
      if (← entry.path.symlinkMetadata).type == .dir then
        return d.put entry.fileName (.directory (← loadDirectory inside))
      else if ← entry.path.isDir then return d
      else
        let content ← if isAlwaysRead entry.fileName then loadContent inside else pure none
        return d.put entry.fileName (.file content)) .empty
  catch _ => return .empty

/-- A tree with what is at a location, if anything is there. -/
def graft (top : Directory) (l : Location) : IO Directory := do
  let path := (Path.ofLocation l).text
  let real? ← try pure (some (← IO.FS.realPath path)) catch _ => pure none
  match real?, l.getLast? with
  | none, _ => return top
  | some _, none => loadDirectory "/"
  | some real, some name =>
    let entry ← if ← real.isDir then Entry.directory <$> loadDirectory path
      else Entry.file <$> loadContent path
    return (top.change? (fun d => some (d.put name entry)) l.dropLast).getD top

/-- The file or directory that a command names. -/
def CommandLine.Command.operand? : Command → Option String
  | .imports file _ | .check file => some file
  | .scan o => some o.path
  | .exclude _ | .config _ => none

/-- The session that a command line starts from. -/
def loadSession (line : List String) : IO Session := do
  let start := (← IO.getEnv "GOPHERDEPS_ROOT").getD "."
  let home := (Path.parse (toString (← IO.FS.realPath start))).location []
  let tree ← graft .empty home
  let session := Session.start tree home none Session.usualCapacity
  match Invocation.parse line with
  | .error _ => return session
  | .ok i =>
    match i.command.operand? with
    | none => return session
    | some operand =>
      return { session with tree := ← graft tree ((Path.parse operand).location home) }

/-- Writes the configuration file where a run has changed it. -/
def saveChanges (old new : Session) : IO Unit := do
  let path := Config.path new
  match new.tree.bytes? path with
  | none => return
  | some bytes =>
    if old.tree.bytes? path != some bytes then
      IO.FS.createDirAll (Path.text { path with parts := path.parts.dropLast })
      IO.FS.writeBinFile path.text ⟨bytes.toArray⟩

end ImportSurvey

open ImportSurvey in
/-- Runs a command line and gives its exit code. -/
def main (line : List String) : IO UInt32 := do
  let session ← loadSession line
  let output : Terminal.Output := ⟨← (← IO.getStdout).isTty, ← IO.getEnv "NO_COLOR"⟩
  let outcome := CommandLine.runLine session output line
  IO.print outcome.out
  IO.eprint outcome.err
  if let some cause := outcome.crash then IO.eprintln ("stopped: " ++ cause.message)
  saveChanges session outcome.session
  return UInt32.ofNat outcome.code
