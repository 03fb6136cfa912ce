import ImportSurvey.CommandLine.Grammar
import ImportSurvey.Text.Numeral
/-!
# Invocations

What a command line asks for: one of five commands with its operands and options, and the options
that concern all of them. A line that asks for nothing else ends the run early.
-/

namespace ImportSurvey.CommandLine

open Text

structure ScanOptions where
  path : String := "."
  json : Bool := false
  tests : Bool := false
  strict : Bool := false
  workers : Option Int := none
  all : Bool := false
deriving DecidableEq, Repr

inductive ConfigAction
  | display
  | set (key value : String)
  | unset (key : String)
deriving DecidableEq, Repr

inductive Command
  | imports (file : String) (json : Bool)
  | check (file : String)
  | scan (options : ScanOptions)
  | exclude (pattern : String)
  | config (action : ConfigAction)
deriving DecidableEq, Repr

structure Invocation where
  tags : List String := []
  system : Option String := none
  architecture : Option String := none
  exclusions : List String := []
  verbose : Bool := false
  command : Command := .config .display
deriving DecidableEq, Repr

/-- Why a line leads to no command. -/
inductive Ending
  | help (program : String)
  | version
  | usage (program message : String)
deriving DecidableEq, Repr

def Ending.usageLine (program message : String) : String :=
  program ++ ": error: " ++ message

/-! ## Grammars -/

def programName : String :=
  "gopherdeps"

def versionText : String :=
  programName ++ " 0.1.0"

def helpOption : OptionSpec :=
  ⟨"help", ["-h", "--help"], false⟩

def optionFlag (name : String) : OptionSpec :=
  ⟨name, ["--" ++ name], false⟩

def optionValue (name : String) : OptionSpec :=
  ⟨name, ["--" ++ name], true⟩

def grammarOf (words : List String) (options : List OptionSpec) (operands : List Operand) :
    Grammar :=
  ⟨" ".intercalate (programName :: words), helpOption :: options, operands⟩

def operandOf (name : String) : Operand :=
  ⟨name, .one, true⟩

def mainGrammar : Grammar :=
  grammarOf [] [optionValue "tags", optionValue "goos", optionValue "goarch",
    optionValue "exclude", ⟨"verbose", ["--verbose", "-v"], false⟩,
    ⟨"version", ["--version", "-V"], false⟩] [⟨"command", .rest, true⟩]

def importsGrammar : Grammar :=
  grammarOf ["imports"] [optionFlag "json"] [operandOf "file"]

def checkGrammar : Grammar :=
  grammarOf ["check"] [] [operandOf "file"]

def scanGrammar : Grammar :=
  grammarOf ["scan"] [optionFlag "json", optionFlag "tests", optionFlag "strict",
    optionValue "workers", optionFlag "all"] [⟨"path", .optional, false⟩]

def excludeGrammar : Grammar :=
  grammarOf ["exclude"] [] [operandOf "pattern"]

def configGrammar : Grammar :=
  grammarOf ["config"] [] [⟨"config_action", .rest, false⟩]

def showGrammar : Grammar :=
  grammarOf ["config", "show"] [] []

def setGrammar : Grammar :=
  grammarOf ["config", "set"] [] [operandOf "config_key", operandOf "config_value"]

def unsetGrammar : Grammar :=
  grammarOf ["config", "unset"] [] [operandOf "config_key"]

/-! ## Reading a line -/

/-- Something read from a line, with the words that fit nowhere. -/
structure Parsed (α : Type) where
  value : α
  extras : List String

def Parsed.map {α β : Type} (f : α → β) (p : Parsed α) : Parsed β :=
  ⟨f p.value, p.extras⟩

/-- Lets the events of a line take effect one after the other. A request for help ends the line,
and what is wrong with the line is found last. -/
def Grammar.carryOut {σ : Type} (g : Grammar) (line : List String) (start : σ)
    (effect : σ → Event → Except Ending σ) : Except Ending (Parsed σ) := do
  let matched := g.read line
  let final ← matched.events.foldlM (fun s e =>
    match e with
    | .option spec _ => if spec.name = "help" then .error (.help g.program) else effect s e
    | .operand .. => effect s e) start
  match matched.failure with
  | some message => .error (.usage g.program message)
  | none => return ⟨final, matched.extras⟩

/-- The texts of the operands of a line whose options have no effect, in their order. -/
def readOperands (g : Grammar) (line : List String) : Except Ending (Parsed (List String)) :=
  g.carryOut line [] fun texts e =>
    match e with
    | .operand _ words => .ok (texts ++ words.take 1)
    | .option .. => .ok texts

def wordAt (words : List String) (i : Nat) : String :=
  (words[i]?).getD ""

def readImports (line : List String) : Except Ending (Parsed Command) :=
  importsGrammar.carryOut line (.imports "" false) fun c e =>
    match c, e with
    | .imports _ json, .operand _ words => .ok (.imports (wordAt words 0) json)
    | .imports file _, .option .. => .ok (.imports file true)
    | c, _ => .ok c

def readCheck (line : List String) : Except Ending (Parsed Command) :=
  (readOperands checkGrammar line).map (·.map fun words => .check (wordAt words 0))

def setWorkers (o : ScanOptions) (value : String) : Except Ending ScanOptions :=
  match integer? value with
  | .ok n => .ok { o with workers := some n }
  | .error _ =>
    .error (.usage scanGrammar.program ("argument --workers: invalid int value: " ++ quoted value))

def scanEffect (o : ScanOptions) : Event → Except Ending ScanOptions
  | .operand _ words => .ok { o with path := (words.head?).getD "." }
  | .option spec value =>
    match spec.name with
    | "json" => .ok { o with json := true }
    | "tests" => .ok { o with tests := true }
    | "strict" => .ok { o with strict := true }
    | "all" => .ok { o with all := true }
    | _ => setWorkers o (value.getD "")

def readScan (line : List String) : Except Ending (Parsed Command) :=
  (scanGrammar.carryOut line {} scanEffect).map (·.map .scan)

def readExclude (line : List String) : Except Ending (Parsed Command) :=
  (readOperands excludeGrammar line).map (·.map fun words => .exclude (wordAt words 0))

def invalidChoice (g : Grammar) (operand word : String) (choices : List String) : Ending :=
  .usage g.program ("argument " ++ operand ++ ": invalid choice: " ++ quoted word ++
    " (choose from " ++ ", ".intercalate (choices.map quoted) ++ ")")

def readConfigAction (word : String) (line : List String) :
    Except Ending (Parsed ConfigAction) :=
  match word with
  | "show" => (readOperands showGrammar line).map (·.map fun _ => .display)
  | "set" =>
    (readOperands setGrammar line).map (·.map fun words => .set (wordAt words 0) (wordAt words 1))
  | "unset" => (readOperands unsetGrammar line).map (·.map fun words => .unset (wordAt words 0))
  | _ => .error (invalidChoice configGrammar "config_action" word ["show", "set", "unset"])

/-- What the words of an operand that takes all of them come to; the first one says how to read the
others. The words that fit nowhere are kept beside it. -/
def configEffect (s : ConfigAction × List String) :
    Event → Except Ending (ConfigAction × List String)
  | .operand _ words => do
    let p ← readConfigAction (wordAt words 0) (words.drop 1)
    return (p.value, s.2 ++ p.extras)
  | .option .. => .ok s

def readConfig (line : List String) : Except Ending (Parsed Command) := do
  let p ← configGrammar.carryOut line (.display, []) configEffect
  return ⟨.config p.value.1, p.extras ++ p.value.2⟩

def readCommand (word : String) (line : List String) : Except Ending (Parsed Command) :=
  match word with
  | "imports" => readImports line
  | "check" => readCheck line
  | "scan" => readScan line
  | "exclude" => readExclude line
  | "config" => readConfig line
  | _ => .error (invalidChoice mainGrammar "command" word
      ["imports", "check", "scan", "exclude", "config"])

def mainEffect (s : Invocation × List String) : Event → Except Ending (Invocation × List String)
  | .operand _ words => do
    let p ← readCommand (wordAt words 0) (words.drop 1)
    return ({ s.1 with command := p.value }, s.2 ++ p.extras)
  | .option spec value =>
    let text := value.getD ""
    match spec.name with
    | "tags" => .ok ({ s.1 with tags := s.1.tags ++ [text] }, s.2)
    | "goos" => .ok ({ s.1 with system := some text }, s.2)
    | "goarch" => .ok ({ s.1 with architecture := some text }, s.2)
    | "exclude" => .ok ({ s.1 with exclusions := s.1.exclusions ++ [text] }, s.2)
    | "verbose" => .ok ({ s.1 with verbose := true }, s.2)
    | _ => .error .version

/-- Reads a whole line. Words that fit nowhere are an error once all else is in order. -/
def Invocation.parse (line : List String) : Except Ending Invocation := do
  let p ← mainGrammar.carryOut line ({}, []) mainEffect
  match p.extras ++ p.value.2 with
  | [] => return p.value.1
  | words =>
    .error (.usage mainGrammar.program ("unrecognized arguments: " ++ " ".intercalate words))

end ImportSurvey.CommandLine
