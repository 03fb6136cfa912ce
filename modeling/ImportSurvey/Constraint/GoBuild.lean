import ImportSurvey.Constraint.Expr
import ImportSurvey.Source.Directive
import ImportSurvey.Text.Cut
import ImportSurvey.Text.Quoted
import ImportSurvey.Text.Reading
import ImportSurvey.Text.Word
/-!
# Constraint lines of the newer form

Behind `go:build` stands a formula with `&&`, `||`, `!` and parentheses, up to a comment mark. A
line that holds no formula constrains nothing; why it holds none is kept for the log. Two negations
in a row are an error.
-/

namespace ImportSurvey.Constraint

open Text Source

inductive Symbol
  | and
  | or
  | not
  | lparen
  | rparen
  | tag (name : String)
deriving DecidableEq, Repr

def Symbol.text : Symbol → String
  | and => "&&"
  | or => "||"
  | not => "!"
  | lparen => "("
  | rparen => ")"
  | tag name => name

/-- Why a text is no formula. -/
inductive Malformed
  | unexpectedInput (text : String)
  | unexpectedEnd
  | unexpectedSymbol (s : Symbol)
  | unexpectedOperator (s : Symbol)
  | missingParenthesis
deriving DecidableEq, Repr

def Malformed.message : Malformed → String
  | unexpectedInput text => "unexpected input at " ++ quoted text
  | unexpectedEnd => "unexpected end of expression"
  | unexpectedSymbol s => "unexpected token " ++ quoted s.text
  | unexpectedOperator s => "unexpected operator " ++ quoted s.text
  | missingParenthesis => "missing closing parenthesis"

inductive Fault
  | malformed (why : Malformed)
  | doubleNegation (operand : String)
deriving DecidableEq, Repr

/-! ## Symbols -/

def symbol? : List Char → Option (Symbol × List Char)
  | '&' :: '&' :: cs => some (.and, cs)
  | '|' :: '|' :: cs => some (.or, cs)
  | '!' :: cs => some (.not, cs)
  | '(' :: cs => some (.lparen, cs)
  | ')' :: cs => some (.rparen, cs)
  | cs =>
    match cs.takeWhile isTagChar with
    | [] => none
    | name => some (.tag (String.ofList name), cs.dropWhile isTagChar)

theorem symbol?_length_lt {cs rest : List Char} {s : Symbol} (h : symbol? cs = some (s, rest)) :
    rest.length < cs.length := by
  unfold symbol? at h
  split at h
  case h_6 =>
    split at h
    · simp at h
    · rename_i name hne
      simp only [Option.some.injEq, Prod.mk.injEq] at h
      have happend := congrArg List.length (List.takeWhile_append_dropWhile (p := isTagChar) (l := cs))
      have hpos := List.length_pos_iff.2 hne
      rw [List.length_append, h.2] at happend
      omega
  all_goals
    simp only [Option.some.injEq, Prod.mk.injEq] at h
    simp only [← h.2, List.length_cons]
    omega

/-- The symbols of a text that does not end in blanks. -/
def symbols (cs : List Char) : Except Malformed (List Symbol) :=
  if cs.isEmpty then .ok []
  else
    match h : symbol? (trimLeft cs) with
    | none => .error (.unexpectedInput (String.ofList cs))
    | some (s, rest) =>
      have := symbol?_length_lt h
      have := (List.dropWhile_suffix (l := cs) isBlank).length_le
      (symbols rest).map (s :: ·)
termination_by cs.length
decreasing_by (simp only [trimLeft] at *; omega)

/-! ## Formulas -/

mutual

/-- One disjunct or more, the first apart. -/
def disjuncts (ss : List Symbol) : Except Fault (Reading (Expr × List Expr) ss) := do
  let first ← conjuncts ss
  let conjunction := Expr.conjoin first.value.1 first.value.2
  match h : first.rest with
  | .or :: rest =>
    have hlt : rest.length < ss.length := by
      have := first.shorter
      simp only [h, List.length_cons] at this
      omega
    let more ← disjuncts rest
    return (more.map fun (e, es) => (conjunction, e :: es)).within (Nat.le_of_lt hlt)
  | _ => return first.map fun _ => (conjunction, [])
termination_by (ss.length, 2)

/-- One conjunct or more, the first apart. -/
def conjuncts (ss : List Symbol) : Except Fault (Reading (Expr × List Expr) ss) := do
  let first ← operand ss
  match h : first.rest with
  | .and :: rest =>
    have hlt : rest.length < ss.length := by
      have := first.shorter
      simp only [h, List.length_cons] at this
      omega
    let more ← conjuncts rest
    return (more.map fun (e, es) => (first.value, e :: es)).within (Nat.le_of_lt hlt)
  | _ => return first.map fun e => (e, [])
termination_by (ss.length, 1)

/-- A tag, a negated operand, or a formula between parentheses. -/
def operand (ss : List Symbol) : Except Fault (Reading Expr ss) :=
  match ss with
  | [] => .error (.malformed .unexpectedEnd)
  | .tag name :: rest => .ok ⟨.tag name, rest, by simp⟩
  | .not :: .not :: rest => .error (.doubleNegation ((rest.head?.map Symbol.text).getD ""))
  | .not :: rest => do
    let inner ← operand rest
    return (inner.map .not).within (by simp)
  | .lparen :: rest => do
    let inner ← disjuncts rest
    match h : inner.rest with
    | [] => throw (.malformed .unexpectedEnd)
    | .rparen :: after =>
      return ⟨Expr.disjoin inner.value.1 inner.value.2, after, by
        have := inner.shorter
        simp only [h, List.length_cons] at *
        omega⟩
    | _ => throw (.malformed .missingParenthesis)
  | s :: _ => .error (.malformed (.unexpectedOperator s))
termination_by (ss.length, 0)

end

/-- The formula that all of `ss` spells. -/
def formula (ss : List Symbol) : Except Fault Expr := do
  let read ← disjuncts ss
  match read.rest with
  | [] => return Expr.disjoin read.value.1 read.value.2
  | s :: _ => throw (.malformed (.unexpectedSymbol s))

/-- The text of a `go:build` comment in which a formula is looked for, without the blanks at its
end; nothing for any other comment. -/
def goBuildFormula (comment : List Char) : List Char :=
  match goBuildBody? (trim comment) with
  | none => []
  | some body => trimRight (before ['/', '*'] (before ['/', '/'] body))

/-- The formula of a `go:build` comment, or why there is none; `none` if the line is empty. -/
def parseGoBuild (comment : String) : Except Fault (Option Expr) :=
  let body := goBuildFormula comment.toList
  if body.isEmpty then .ok none
  else
    match symbols body with
    | .error why => .error (.malformed why)
    | .ok ss => (formula ss).map some

/-- Reads a `go:build` comment; `none` if it holds no formula. -/
def readGoBuild (comment : String) (line : Option Nat) : Except InvalidTerm (Option Expr) :=
  match parseGoBuild comment with
  | .ok constraint => .ok constraint
  | .error (.malformed _) => .ok none
  | .error (.doubleNegation operand) => .error ⟨"!!" ++ operand, line⟩

/-- Why a `go:build` comment holds no formula, if it should hold one. -/
def malformedGoBuild? (comment : String) : Option Malformed :=
  match parseGoBuild comment with
  | .error (.malformed why) => some why
  | _ => none

end ImportSurvey.Constraint
