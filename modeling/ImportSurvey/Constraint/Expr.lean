import ImportSurvey.NameSet
/-!
# Constraint expressions

Boolean formulas over build tags, their value under a set of tags and their written form. The
absence of a constraint is `none` of `Option Expr`, which every set satisfies.
-/

namespace ImportSurvey.Constraint

inductive Expr
  | tag (name : String)
  | not (operand : Expr)
  | and (operands : List Expr)
  | or (operands : List Expr)
deriving Repr

namespace Expr

mutual

/-- The value of a formula when exactly the tags in `tags` are set. -/
def eval (tags : NameSet) : Expr → Bool
  | tag name => decide (name ∈ tags)
  | not operand => !eval tags operand
  | and operands => evalAll tags operands
  | or operands => evalAny tags operands

def evalAll (tags : NameSet) : List Expr → Bool
  | [] => true
  | e :: es => eval tags e && evalAll tags es

def evalAny (tags : NameSet) : List Expr → Bool
  | [] => false
  | e :: es => eval tags e || evalAny tags es

end

def isTag : Expr → Bool
  | tag _ => true
  | _ => false

def isAnd : Expr → Bool
  | and _ => true
  | _ => false

def isOr : Expr → Bool
  | or _ => true
  | _ => false

def parenthesizedIf (condition : Bool) (text : String) : String :=
  if condition then "(" ++ text ++ ")" else text

mutual

/-- The written form. Conjunctions bind tighter than disjunctions, and the operands of either are
put between parentheses where they are of the other kind. -/
def text : Expr → String
  | tag name => name
  | not operand => "!" ++ parenthesizedIf (!operand.isTag) (text operand)
  | and operands => " && ".intercalate (conjunctTexts operands)
  | or operands => " || ".intercalate (disjunctTexts operands)

def conjunctTexts : List Expr → List String
  | [] => []
  | e :: es => parenthesizedIf e.isOr (text e) :: conjunctTexts es

def disjunctTexts : List Expr → List String
  | [] => []
  | e :: es => parenthesizedIf e.isAnd (text e) :: disjunctTexts es

end

/-- The conjunction of one formula or more; a single one stays as it is. -/
def conjoin (first : Expr) : List Expr → Expr
  | [] => first
  | more => and (first :: more)

/-- The disjunction of one formula or more; a single one stays as it is. -/
def disjoin (first : Expr) : List Expr → Expr
  | [] => first
  | more => or (first :: more)

/-- The conjunction of any number of formulas; of none, no constraint. -/
def allOf : List Expr → Option Expr
  | [] => none
  | e :: es => some (conjoin e es)

def anyOf : List Expr → Option Expr
  | [] => none
  | e :: es => some (disjoin e es)

theorem evalAll_eq_all (tags : NameSet) (es : List Expr) :
    evalAll tags es = es.all (eval tags) := by
  induction es with
  | nil => rfl
  | cons e es ih => simp [evalAll, ih]

theorem evalAny_eq_any (tags : NameSet) (es : List Expr) :
    evalAny tags es = es.any (eval tags) := by
  induction es with
  | nil => rfl
  | cons e es ih => simp [evalAny, ih]

theorem eval_conjoin (tags : NameSet) (e : Expr) (es : List Expr) :
    (conjoin e es).eval tags = (e :: es).all (eval tags) := by
  cases es with
  | nil => simp [conjoin]
  | cons f es => simp [conjoin, eval, evalAll_eq_all]

theorem eval_disjoin (tags : NameSet) (e : Expr) (es : List Expr) :
    (disjoin e es).eval tags = (e :: es).any (eval tags) := by
  cases es with
  | nil => simp [disjoin]
  | cons f es => simp [disjoin, eval, evalAny_eq_any]

end Expr

/-- Whether the tags satisfy a constraint, if there is one. -/
def holds (tags : NameSet) (constraint : Option Expr) : Bool :=
  constraint.all (Expr.eval tags)

/-- The written form of a constraint; the absence of one reads as a true formula. -/
def textOf (constraint : Option Expr) : String :=
  (constraint.map Expr.text).getD "true"

@[simp] theorem holds_none (tags : NameSet) : holds tags none = true := rfl

theorem holds_allOf (tags : NameSet) (es : List Expr) :
    holds tags (Expr.allOf es) = es.all (Expr.eval tags) := by
  cases es with
  | nil => rfl
  | cons e es => simp [Expr.allOf, holds, Expr.eval_conjoin]

/-- A term negated more than once, with the line it stands on if that is known. -/
structure InvalidTerm where
  term : String
  line : Option Nat
deriving DecidableEq, Repr

end ImportSurvey.Constraint
