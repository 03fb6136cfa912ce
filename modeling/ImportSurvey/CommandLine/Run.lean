import ImportSurvey.CommandLine.Invocation
import ImportSurvey.Config.File
import ImportSurvey.Report
import ImportSurvey.Terminal.Grid
/-!
# Running commands

A run reads and changes a session and writes to two streams. It ends with an exit code, or with a
crash where nothing provides for what went wrong.
-/

namespace ImportSurvey.CommandLine

open Terminal Workspace

/-- What no command provides for. -/
inductive Crash
  | badVersion
  | tagsWithoutParts
  | exclusionNotText
  | nothingToEvict
deriving DecidableEq, Repr

def Crash.message : Crash → String
  | badVersion => "the configured Go release is not known"
  | tagsWithoutParts => "the configured build tags are not a list"
  | exclusionNotText => "a configured exclusion is not a text"
  | nothingToEvict => "searches cannot be remembered"

inductive Stop
  | exit (code : Nat)
  | crash (cause : Crash)
deriving DecidableEq, Repr

/-- The state of a run: the session, how to write, and what was written so far. -/
structure State where
  session : Session
  output : Output
  verbose : Bool
  out : String := ""
  err : String := ""

abbrev Run := ExceptT Stop (StateM State)

namespace Run

def exit {α : Type} (code : Nat) : Run α :=
  throw (.exit code)

def crash {α : Type} (cause : Crash) : Run α :=
  throw (.crash cause)

def session : Run Session :=
  return (← get).session

def setSession (session : Session) : Run Unit :=
  modify fun s => { s with session := session }

def print (line : String) : Run Unit :=
  modify fun s => { s with out := s.out ++ line ++ "\n" }

def printError (line : String) : Run Unit :=
  modify fun s => { s with err := s.err ++ line ++ "\n" }

def colored (line color : String) : Run String :=
  return colorize (← get).output line color

def printColored (line color : String) : Run Unit := do
  print (← colored line color)

def printErrorColored (line color : String) : Run Unit := do
  printError (← colored line color)

/-- Reports an error of the user's making and ends the run. -/
def fail {α : Type} (message : String) : Run α := do
  printErrorColored ("  error: " ++ message) "red"
  exit 1

def remark (remarks : List Remark) : Run Unit := do
  (Remark.lines (← get).verbose remarks).forM printError

def printGrid (headers : List String) (rows : List (List String)) : Run Unit := do
  match gridLines (← get).output headers rows with
  | .ok lines => lines.forM print
  | .error _ => pure ()

def loadConfig : Run Config := do
  let loaded := Config.load (← session) none
  setSession loaded.session
  remark loaded.remarks
  return loaded.config

def saveConfig (c : Config) : Run Unit := do
  match c.save? (← session) none with
  | some saved => setSession saved
  | none => fail "could not save config: it cannot be written"

/-- The text of a file named on the command line. -/
def readSource (file : String) : Run String := do
  let s ← session
  let read := s.readText (s.resolvePath file)
  setSession read.2
  match read.1 with
  | some source => return source
  | none => fail ("cannot read " ++ file)

end Run

end ImportSurvey.CommandLine
