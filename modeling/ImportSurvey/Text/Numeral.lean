import ImportSurvey.Text.Blank
import ImportSurvey.Text.Quoted
/-!
# Written integers

An optional sign and decimal digits of any script, single underscores allowed between digits, with
white space around. The information separators, white space everywhere else, do not count here.
-/

namespace ImportSurvey.Text

structure NumeralError where
  text : String
deriving DecidableEq, Repr

/-- The offending text is quoted, and the quotation cut at 200 characters. -/
def NumeralError.message (e : NumeralError) : String :=
  "invalid literal for int() with base 10: " ++
    String.ofList ((quotedChars e.text.toList).take 200)

def isNumeralBlank (c : Char) : Bool :=
  isBlank c && !(0x1c ≤ c.toNat && c.toNat ≤ 0x1f)

/-- The value of digits that follow a digit, the digits before them having the value `value`. -/
def moreDigits (value : Nat) : List Char → Option Nat
  | [] => some value
  | c :: cs =>
    if c == '_' then
      match cs with
      | [] => none
      | d :: ds => (digitValue? d).bind fun n => moreDigits (10 * value + n) ds
    else (digitValue? c).bind fun n => moreDigits (10 * value + n) cs

def natural? : List Char → Option Nat
  | [] => none
  | c :: cs => (digitValue? c).bind fun n => moreDigits n cs

def signed? : List Char → Option Int
  | '-' :: cs => (natural? cs).map fun n => -(n : Int)
  | '+' :: cs => (natural? cs).map fun n => (n : Int)
  | cs => (natural? cs).map fun n => (n : Int)

def integer? (s : String) : Except NumeralError Int :=
  let body := s.toList.dropWhile isNumeralBlank
  match signed? (body.reverse.dropWhile isNumeralBlank).reverse with
  | some n => .ok n
  | none => .error ⟨s⟩

/-- The value of a run of digits, all of which are known to be decimal. -/
def naturalOf (cs : List Char) : Nat :=
  cs.foldl (fun value c => 10 * value + (digitValue? c).getD 0) 0

end ImportSurvey.Text
