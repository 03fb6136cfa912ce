import ImportSurvey.CommandLine.Run
import ImportSurvey.Explanation
/-!
# The commands

What each command does with a configuration and the tags it sets, and the two ways to run one: with
the start-up that applies exclusions in a scope of its own, or bare in the present scope.
-/

namespace ImportSurvey.CommandLine

open Run Terminal Workspace

/-! ## Single files -/

def printReport (file : String) (report : FileReport) : Run Unit := do
  if report.isIncluded then report.imports.forM print
  else printErrorColored ("  " ++ file ++ ": " ++ report.verdict.name) "yellow"

def reportJson (file : String) (report : FileReport) : Json :=
  .obj [("file", .str file), ("verdict", .str report.verdict.name),
    ("package", .ofText? report.package), ("imports", .ofTexts report.imports)]

/-- Lists the imports of a file. -/
def runImports (tags : NameSet) (file : String) (json : Bool) : Run Unit := do
  let source ← readSource file
  let name := fileNameOf file
  if Platform.nameAllows name tags then remark (Survey.malformedRemarks source)
  match analyze source tags (some name) with
  | .error e => fail (file ++ ": " ++ e.message)
  | .ok report =>
    if json then print (reportJson file report).linesText else printReport file report

def printVerdict (verdict : Verdict) : Run Unit :=
  match verdict with
  | .included => printColored "  included" "green"
  | .excludedByFileName =>
    printColored "  excluded: file name targets another GOOS/GOARCH" "yellow"
  | .excludedByTags => printColored "  excluded: build constraints not satisfied" "yellow"

/-- Explains why a file is or is not part of the build. -/
def runCheck (tags : NameSet) (file : String) : Run Unit := do
  let source ← readSource file
  (Source.directives source).forM fun d =>
    printColored ("  line " ++ toString d.line ++ ": " ++ Text.trimmed d.text) "dim"
  remark (Survey.malformedRemarks source)
  match Explanation.ofSource source tags (fileNameOf file) with
  | .error e => fail (file ++ ": " ++ e.message)
  | .ok explanation =>
    print ("  constraint: " ++ explanation.constraintText)
    printVerdict explanation.verdict
    printColored ("  tags: " ++ " ".intercalate tags.names) "dim"

/-! ## Projects -/

def summaryRow (d : Dependency) : List String :=
  [d.name, d.kind.name, d.version.getD "", toString d.packages.size]

def printSummary (s : Survey) (all : Bool) : Run Unit := do
  printErrorColored ("  " ++ toString s.files.length ++ " files: " ++
    toString s.included.length ++ " built, " ++ toString s.excluded.length ++ " excluded, " ++
    toString s.invalid.length ++ " invalid") "dim"
  let shown := if all then s.dependencies.sorted.map Prod.snd else s.external
  if shown.isEmpty then printColored "  No dependencies found." "dim"
  printGrid ["Dependency", "Kind", "Version", "Pkgs"] (shown.map summaryRow)
  (Table.sorted s.invalid).forM fun (path, message) =>
    printErrorColored ("  invalid: " ++ path ++ ": " ++ message) "red"

/-- Surveys a directory with file texts remembered meanwhile. -/
def surveyOnce (request : Request) : Run Survey := do
  let result := survey (← session).enableTexts request
  match result with
  | .error _ =>
    setSession (← session).disableTexts
    crash .nothingToEvict
  | .ok (found, after) =>
    setSession after.disableTexts
    return found

/-- Lists the dependencies of a project. -/
def runScan (config : Config) (tags : NameSet) (o : ScanOptions) : Run Unit := do
  let written :=
    match config.get .dependencies with
    | .obj members => members
    | _ => []
  match Dependency.loadPins written with
  | .error e => fail ("bad dependency pin in config: " ++ e.message)
  | .ok pins =>
    let found ← surveyOnce
      { path := o.path, tags := tags, tests := o.tests || (config.get .includeTests).isTruthy,
        modulePath := (config.get .modulePath).text?.filter (· != ""), pins := pins }
    remark found.remarks
    if o.json then print found.toJson.linesText else printSummary found o.all
    if o.strict && !found.invalid.isEmpty then exit 1

/-! ## Configuration -/

def shownValue (v : Json) : String :=
  match v with
  | .arr _ | .obj _ => if v.isTruthy then v.inlineText else "(empty)"
  | v => v.plainText

def printConfig (c : Config) : Run Unit := do
  printColored ("  " ++ (Config.path (← session)).text) "dim"
  printGrid ["Key", "Value", "Description"]
    (Config.Setting.all.map fun s => [s.key, shownValue (c.get s), s.description])

/-- The message of a failed edit without quotes at its ends. A key that is not known is quoted
first. -/
def editMessage (e : Config.Error) : String :=
  let text :=
    match e with
    | .unknownKey _ => Text.quoted e.message
    | e => e.message
  let isQuote (c : Char) : Bool := c == '\x27' || c == '\x22'
  String.ofList ((text.toList.dropWhile isQuote).reverse.dropWhile isQuote).reverse

/-- Edits a configuration and saves it, unless the edit fails. -/
def edit (c : Config) (e : Config.Edit) (done : Config → String) : Run Unit := do
  let (result, edited) := c.edit e
  match result with
  | .error e => fail (editMessage e)
  | .ok _ =>
    saveConfig edited
    printColored (done edited) "green"

def runConfig (action : ConfigAction) : Run Unit := do
  let c ← loadConfig
  match action with
  | .display => printConfig c
  | .set key value =>
    edit c (.set key value) fun c =>
      "Set " ++ key ++ " = " ++ shownValue ((c.members.get? key).getD .null)
  | .unset key => edit c (.unset key) fun _ => "Reset " ++ key ++ " to default"

/-- Adds a pattern to the exclusions of the configuration. -/
def runExclude (pattern : String) : Run Unit := do
  let c ← loadConfig
  edit c (.exclude pattern) fun _ => "Added exclude pattern: " ++ pattern

/-! ## Running an invocation -/

def Invocation.tagsUnder (i : Invocation) (c : Config) : Except Config.TagError NameSet :=
  c.tags i.system i.architecture (i.tags.flatMap Platform.splitTags)

def runCommand (i : Invocation) (prepared : Run (Config × NameSet)) : Run Unit := do
  match i.command with
  | .imports file json => runImports (← prepared).2 file json
  | .check file => runCheck (← prepared).2 file
  | .scan o =>
    let (config, tags) ← prepared
    runScan config tags o
  | .exclude pattern => runExclude pattern
  | .config action => runConfig action

/-- Puts the exclusions of the line and the configuration in force and says so. -/
def applyExclusions (i : Invocation) (c : Config) : Run Unit := do
  let persisted : List Json :=
    match c.get .exclude with
    | .arr items => items.filter fun v => !(v.text?.any i.exclusions.contains)
    | _ => []
  match persisted.mapM Json.text? with
  | none => crash .exclusionNotText
  | some persisted =>
    let combined := i.exclusions ++ persisted
    if !combined.isEmpty then
      setSession ((← session).setExclusions combined)
      let source := if i.exclusions.isEmpty then " (from config)" else ""
      printErrorColored ("  Excluding" ++ source ++ ": " ++ ", ".intercalate combined) "dim"

/-- The whole program, in a scope of its own. -/
def runMain (i : Invocation) : Run Unit := do
  let config ← loadConfig
  applyExclusions i config
  match i.tagsUnder config with
  | .error (.badVersion e) =>
    printErrorColored ("  " ++ e.message) "red"
    exit 1
  | .error .noParts => crash .tagsWithoutParts
  | .ok tags => runCommand i (pure (config, tags))

/-- A command by itself, which prepares what it needs. -/
def runBare (i : Invocation) : Run Unit :=
  runCommand i do
    let config ← loadConfig
    match i.tagsUnder config with
    | .error (.badVersion _) => crash .badVersion
    | .error .noParts => crash .tagsWithoutParts
    | .ok tags => return (config, tags)

/-- How a run ended, and what it wrote and left behind. -/
structure Outcome where
  code : Nat
  crash : Option Crash
  out : String
  err : String
  session : Session

def Outcome.ofEnding (s : Session) : Ending → Outcome
  | .help program => ⟨0, none, "usage: " ++ program ++ " [options]\n", "", s⟩
  | .version => ⟨0, none, versionText ++ "\n", "", s⟩
  | .usage program message => ⟨2, none, "", Ending.usageLine program message ++ "\n", s⟩

def carryOut (action : Run Unit) (s : Session) (output : Output) (verbose : Bool) : Outcome :=
  let (result, final) := (ExceptT.run action).run ⟨s, output, verbose, "", ""⟩
  match result with
  | .ok _ => ⟨0, none, final.out, final.err, final.session⟩
  | .error (.exit code) => ⟨code, none, final.out, final.err, final.session⟩
  | .error (.crash cause) => ⟨1, some cause, final.out, final.err, final.session⟩

/-- Runs a command line as a program of its own. -/
def runLine (s : Session) (output : Output) (line : List String) : Outcome :=
  match Invocation.parse line with
  | .error ending => .ofEnding s ending
  | .ok i =>
    let outcome := carryOut (runMain i) (s.enter none Session.usualCapacity) output i.verbose
    { outcome with session := (outcome.session.leave?).getD outcome.session }

/-- Runs the command that a line names in the present scope. -/
def runLineBare (s : Session) (output : Output) (line : List String) : Outcome :=
  match Invocation.parse line with
  | .error ending => .ofEnding s ending
  | .ok i => carryOut (runBare i) s output false

end ImportSurvey.CommandLine
