/-!
# Colour on terminals

Escape sequences around a text, written only where the output is a terminal and colour is not
switched off.
-/

namespace ImportSurvey.Terminal

/-- The sequence that turns a colour on; a name that is none turns on nothing. -/
def colorCode : String → String
  | "bold" => "\x1b[1m"
  | "dim" => "\x1b[2m"
  | "red" => "\x1b[31m"
  | "green" => "\x1b[32m"
  | "yellow" => "\x1b[33m"
  | _ => ""

/-- The output that text goes to. Any value of the variable that switches colour off does so. -/
structure Output where
  isTerminal : Bool := false
  noColor : Option String := none
deriving DecidableEq, Repr

def Output.hasColor (o : Output) : Bool :=
  o.isTerminal && o.noColor.isNone

def colorize (o : Output) (text color : String) : String :=
  if o.hasColor then colorCode color ++ text ++ "\x1b[0m" else text

end ImportSurvey.Terminal
