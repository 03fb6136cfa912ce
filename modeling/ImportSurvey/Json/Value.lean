import ImportSurvey.Json.Double
import ImportSurvey.Table
/-!
# JSON values

Values of the data format. The members of an object keep their order, and integers are apart from
numbers with a fraction or an exponent.
-/

namespace ImportSurvey

inductive Json
  | null
  | bool (value : Bool)
  | int (value : Int)
  | float (value : Json.Double)
  | str (value : String)
  | arr (items : List Json)
  | obj (members : List (String × Json))
deriving Repr

namespace Json

instance : Inhabited Json := ⟨null⟩

def ofNat (n : Nat) : Json :=
  int n

/-- The text of a value, `null` standing for its absence. -/
def ofText? : Option String → Json
  | some s => str s
  | none => null

def ofTexts (xs : List String) : Json :=
  arr (xs.map str)

def text? : Json → Option String
  | str s => some s
  | _ => none

/-- The member under a key. -/
def member? (v : Json) (key : String) : Option Json :=
  match v with
  | obj members => Table.get? members key
  | _ => none

/-- Values that count as nothing where a default is to take their place: null, false, zero and all
that is empty. -/
def isTruthy : Json → Bool
  | null => false
  | bool b => b
  | int n => n != 0
  | float (.finite _ m _) => m != 0
  | float _ => true
  | str s => s != ""
  | arr items => !items.isEmpty
  | obj members => !members.isEmpty

end Json

end ImportSurvey
