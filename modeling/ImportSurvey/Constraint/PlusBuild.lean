import ImportSurvey.Constraint.Expr
import ImportSurvey.Source.Directive
import ImportSurvey.Text.Word
/-!
# Constraint lines of the older form

Behind `+build` stand fields between blanks, one of which has to hold. A field is a list of terms
between commas, all of which have to hold, and a term is a tag or a negated tag. The first field of
another shape and all behind it are comment.
-/

namespace ImportSurvey.Constraint

open Text Source

/-- Exclamation marks and then a tag. -/
def isTerm (cs : List Char) : Bool :=
  let tag := cs.dropWhile (· == '!')
  !tag.isEmpty && tag.all isTagChar

def termsOf (field : List Char) : List (List Char) :=
  field.splitOn ','

def isTermList (field : List Char) : Bool :=
  (termsOf field).all isTerm

def readTerm (line : Option Nat) (cs : List Char) : Except InvalidTerm Expr :=
  let tag := Expr.tag (String.ofList (cs.dropWhile (· == '!')))
  match cs.takeWhile (· == '!') with
  | [] => .ok tag
  | [_] => .ok (.not tag)
  | _ => .error ⟨String.ofList cs, line⟩

def readField (line : Option Nat) (field : List Char) : Except InvalidTerm (Option Expr) := do
  return Expr.allOf (← (termsOf field).mapM (readTerm line))

/-- The fields of a `+build` comment that are lists of terms, up to the first that is not. -/
def plusBuildFields (comment : List Char) : List (List Char) :=
  match plusBuildBody? (trim comment) with
  | none => []
  | some body => (fields body).takeWhile isTermList

/-- Reads a `+build` comment; `none` if it holds no usable field. -/
def readPlusBuild (comment : String) (line : Option Nat) : Except InvalidTerm (Option Expr) := do
  let read ← (plusBuildFields comment.toList).mapM (readField line)
  return Expr.anyOf (read.filterMap id)

end ImportSurvey.Constraint
