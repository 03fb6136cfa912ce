import ImportSurvey.Json.Value
import ImportSurvey.Text.Quoted
/-!
# Writing JSON

Two layouts, one on a single line and one with a line for each item, and the plain text of a value
as messages show it. JSON text is pure ASCII: other characters are written by their UTF-16 units.
-/

namespace ImportSurvey.Json

open Text

/-- The UTF-16 units of a character. -/
def units (c : Char) : List Nat :=
  if c.toNat < 0x10000 then [c.toNat]
  else [0xd800 + (c.toNat - 0x10000) / 0x400, 0xdc00 + (c.toNat - 0x10000) % 0x400]

def escapedUnit (n : Nat) : List Char :=
  '\\' :: 'u' :: hex n 4

def escapedChar (c : Char) : List Char :=
  if c == '\x22' then ['\\', '\x22']
  else if c == '\\' then ['\\', '\\']
  else if c == '\n' then ['\\', 'n']
  else if c == '\r' then ['\\', 'r']
  else if c == '\t' then ['\\', 't']
  else if c == '\x08' then ['\\', 'b']
  else if c == '\x0c' then ['\\', 'f']
  else if 0x20 ≤ c.toNat && c.toNat ≤ 0x7e then [c]
  else (units c).flatMap escapedUnit

def stringChars (s : String) : List Char :=
  '\x22' :: s.toList.flatMap escapedChar ++ ['\x22']

def intChars : Int → List Char
  | .ofNat n => Nat.toDigits 10 n
  | .negSucc n => '-' :: Nat.toDigits 10 (n + 1)

def doubleChars : Double → List Char
  | .finite negative m q => Double.finiteText negative m q
  | .infinite negative => (if negative then "-Infinity" else "Infinity").toList
  | .notANumber => "NaN".toList

/-- What stands between the parts of an array or object. -/
structure Layout where
  /-- behind the opening bracket, at a depth -/
  opening : Nat → List Char
  /-- between two items, at a depth -/
  between : Nat → List Char
  /-- before the closing bracket, at the depth outside -/
  closing : Nat → List Char

def lineAt (depth : Nat) : List Char :=
  '\n' :: List.replicate (2 * depth) ' '

namespace Layout

/-- All on one line, a blank behind each comma. -/
def inline : Layout :=
  ⟨fun _ => [], fun _ => [',', ' '], fun _ => []⟩

/-- Every item on a line of its own, two columns further in than its container. -/
def lines : Layout :=
  ⟨fun depth => lineAt depth, fun depth => ',' :: lineAt depth, fun depth => lineAt depth⟩

end Layout

mutual

def chars (layout : Layout) (depth : Nat) : Json → List Char
  | null => "null".toList
  | bool b => (if b then "true" else "false").toList
  | int n => intChars n
  | float x => doubleChars x
  | str s => stringChars s
  | arr [] => ['[', ']']
  | arr (v :: vs) =>
    '[' :: layout.opening (depth + 1) ++ chars layout (depth + 1) v ++
      itemChars layout (depth + 1) vs ++ layout.closing depth ++ [']']
  | obj [] => ['\x7b', '\x7d']
  | obj ((k, v) :: ms) =>
    '\x7b' :: layout.opening (depth + 1) ++ stringChars k ++ ':' :: ' ' ::
      chars layout (depth + 1) v ++ memberChars layout (depth + 1) ms ++ layout.closing depth ++
      ['\x7d']

def itemChars (layout : Layout) (depth : Nat) : List Json → List Char
  | [] => []
  | v :: vs => layout.between depth ++ chars layout depth v ++ itemChars layout depth vs

def memberChars (layout : Layout) (depth : Nat) : List (String × Json) → List Char
  | [] => []
  | (k, v) :: ms =>
    layout.between depth ++ stringChars k ++ ':' :: ' ' :: chars layout depth v ++
      memberChars layout depth ms

end

/-- The value on one line. -/
def inlineText (v : Json) : String :=
  String.ofList (chars .inline 0 v)

/-- The value over several lines. -/
def linesText (v : Json) : String :=
  String.ofList (chars .lines 0 v)

/-! ## Plain text -/

def plainDouble : Double → String
  | .finite negative m q => String.ofList (Double.finiteText negative m q)
  | .infinite negative => if negative then "-inf" else "inf"
  | .notANumber => "nan"

mutual

/-- The text of a value inside another one: as its plain text, but strings are quoted. -/
def nestedText : Json → String
  | null => "None"
  | bool b => if b then "True" else "False"
  | int n => String.ofList (intChars n)
  | float x => plainDouble x
  | str s => quoted s
  | arr items => "[" ++ ", ".intercalate (nestedTexts items) ++ "]"
  | obj members => "\x7b" ++ ", ".intercalate (nestedMembers members) ++ "\x7d"

def nestedTexts : List Json → List String
  | [] => []
  | v :: vs => nestedText v :: nestedTexts vs

def nestedMembers : List (String × Json) → List String
  | [] => []
  | (k, v) :: ms => (quoted k ++ ": " ++ nestedText v) :: nestedMembers ms

end

/-- The text of a value as messages and tables show it: a string as it is, and capital initials for
the three constants. -/
def plainText : Json → String
  | str s => s
  | v => nestedText v

end ImportSurvey.Json
