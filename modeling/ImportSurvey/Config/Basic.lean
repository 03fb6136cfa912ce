import ImportSurvey.Config.Setting
import ImportSurvey.Json.Printer
import ImportSurvey.Text.Cut
/-!
# Configurations

A configuration is an object whose members are settings or keys of somebody else, which are kept as
they are. It is edited in place, from texts that are checked against the setting's shape and range.
-/

namespace ImportSurvey

/-- The members of a configuration, in the order of its file. -/
structure Config where
  members : Table String Json
deriving Repr

namespace Config

open Text Platform

def get (c : Config) (s : Setting) : Json :=
  (c.members.get? s.key).getD s.default

def put (c : Config) (s : Setting) (v : Json) : Config :=
  ⟨c.members.put s.key v⟩

def toJson (c : Config) : Json :=
  .obj c.members

/-- Every setting with its default. -/
def default : Config :=
  ⟨Setting.all.map fun s => (s.key, s.default)⟩

def isWellTyped (c : Config) (s : Setting) : Bool :=
  (c.members.get? s.key).any s.shape.fits

/-- Fills in one setting if it is missing or of the wrong shape. -/
def fill (c : Config) (s : Setting) : Config :=
  if c.isWellTyped s then c else c.put s s.default

def normalize (c : Config) : Config :=
  Setting.all.foldl fill c

def isNormal (c : Config) : Bool :=
  Setting.all.all c.isWellTyped

/-! ## Editing -/

/-- Why an edit fails. The last two concern a list setting that holds something else: a value without
parts to look through, or one that has parts but cannot be added to. -/
inductive Error
  | unknownKey (key : String)
  | badNumber (e : NumeralError)
  | workersOutOfRange (raw : String)
  | badFlag (key raw : String)
  | badVersion (e : BadVersion)
  | emptyPlatform (key : String)
  | tableKey (key : String)
  | noParts
  | notExtensible
deriving DecidableEq, Repr

def mostWorkers : Int :=
  64

def Error.message : Error → String
  | unknownKey key => "Unknown config key: " ++ key
  | badNumber e => e.message
  | workersOutOfRange raw => "Expected integer 1-64 for scan_workers, got: " ++ raw
  | badFlag key raw => "Expected true/false for " ++ key ++ ", got: " ++ raw
  | badVersion e => e.message
  | emptyPlatform key => key ++ " cannot be empty"
  | tableKey key => "Cannot set dict key '" ++ key ++ "' via CLI; edit .gopherdeps/config.json"
  | noParts | notExtensible => ""

/-- Steps that change a configuration in place and may fail on the way. -/
abbrev Editing :=
  ExceptT Error (StateM Config)

/-- How steps end, and the configuration that they leave. -/
def Editing.outcome (steps : Editing Unit) (c : Config) : Except Error Unit × Config :=
  (ExceptT.run steps).run c

/-- Stores the value of a setting. -/
def store (s : Setting) (v : Json) : Editing Unit :=
  modify (·.put s v)

/-- Appends a text to a list setting that does not hold it yet. A value of another shape can be asked
for a part or key at most. -/
def addText (s : Setting) (text : String) : Editing Unit := do
  match (← getThe Config).members.get? s.key with
  | some (.arr items) =>
    if items.any (fun v => v.text? == some text) then pure ()
    else store s (.arr (items ++ [.str text]))
  | some (.str value) =>
    if holds text.toList value.toList then pure () else throw .notExtensible
  | some (.obj members) =>
    if Table.has members text then pure () else throw .notExtensible
  | _ => throw .noParts

/-- Adds texts to a list setting one after the other. The list is made if it is missing. -/
def addTexts (s : Setting) (texts : List String) : Editing Unit := do
  if ((← getThe Config).members.get? s.key).isNone then store s (.arr [])
  texts.forM (addText s)

def readNumber (raw : String) : Except Error Json :=
  match integer? raw with
  | .error e => .error (.badNumber e)
  | .ok n => if 1 ≤ n && n ≤ mostWorkers then .ok (.int n) else .error (.workersOutOfRange raw)

def readFlag (key raw : String) : Except Error Json :=
  let lowered := String.ofList (raw.toList.map Char.toLower)
  if ["true", "1", "yes", "on"].contains lowered then .ok (.bool true)
  else if ["false", "0", "no", "off"].contains lowered then .ok (.bool false)
  else .error (.badFlag key raw)

def readText (s : Setting) (raw : String) : Except Error Json :=
  let value := trimmed raw
  match s with
  | .goVersion =>
    match releaseTags value with
    | .ok _ => .ok (.str value)
    | .error e => .error (.badVersion e)
  | .system | .architecture =>
    if value == "" then .error (.emptyPlatform s.key) else .ok (.str value)
  | _ => .ok (.str value)

/-- Sets a setting from a text. A list gains what it does not hold yet: tags one by one, anything
else as a whole. -/
def setSetting (s : Setting) (raw : String) : Editing Unit :=
  match s.shape with
  | .number => do store s (← readNumber raw)
  | .flag => do store s (← readFlag s.key raw)
  | .text => do store s (← readText s raw)
  | .list => addTexts s (if s = .buildTags then splitTags raw else [raw])
  | .table => throw (.tableKey s.key)

/-- What can be done to a configuration: set a key from a text, put it back to its default, or add a
pattern to the exclusions. -/
inductive Edit
  | set (key raw : String)
  | unset (key : String)
  | exclude (pattern : String)
deriving DecidableEq, Repr

def Edit.steps : Edit → Editing Unit
  | set key raw =>
    match Setting.ofKey? key with
    | none => throw (.unknownKey key)
    | some s => setSetting s raw
  | unset key =>
    match Setting.ofKey? key with
    | none => throw (.unknownKey key)
    | some s => store s s.default
  | exclude pattern => addTexts .exclude [pattern]

def edit (c : Config) (e : Edit) : Except Error Unit × Config :=
  e.steps.outcome c

/-! ## Build tags -/

/-- Why a configuration has no set of tags: its Go release is not known, or its build tags are a
value without parts. -/
inductive TagError
  | badVersion (e : BadVersion)
  | noParts
deriving DecidableEq, Repr

/-- The text of a setting, its default taking the place of a value that counts as nothing. -/
def textOf (c : Config) (s : Setting) : String :=
  let v := c.get s
  (if v.isTruthy then v else s.default).plainText

/-- The texts of what a value holds: items, keys or characters. -/
def itemTexts : Json → Except TagError (List String)
  | .arr items => .ok (items.map Json.plainText)
  | .obj members => .ok (members.map Prod.fst)
  | .str s => .ok (s.toList.map fun c => String.ofList [c])
  | v => if v.isTruthy then .error .noParts else .ok []

/-- The tags set under a configuration, with a system or architecture in place of the configured one
where the text given is not empty, and with extra tags. -/
def tags (c : Config) (system architecture : Option String) (extra : List String) :
    Except TagError NameSet := do
  let configured ← itemTexts (c.get .buildTags)
  let target : Platform.Target :=
    { system := (system.filter (· != "")).getD (c.textOf .system)
      architecture := (architecture.filter (· != "")).getD (c.textOf .architecture)
      version := c.textOf .goVersion
      cgo := (c.get .cgoEnabled).isTruthy }
  match target.tags (configured ++ extra) with
  | .ok tags => return tags
  | .error e => throw (.badVersion e)

end Config

end ImportSurvey
