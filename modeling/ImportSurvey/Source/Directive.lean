import ImportSurvey.Text.Blank
/-!
# Build directives

Line comments that carry a build constraint. The older form opens with `+build` after the slashes
and any blanks, the newer one with `go:build` right after them; either word ends at a blank or
with the comment.
-/

namespace ImportSurvey.Source

open Text

inductive DirectiveForm
  | plusBuild
  | goBuild
deriving DecidableEq, Repr

def DirectiveForm.name : DirectiveForm → String
  | plusBuild => "+build"
  | goBuild => "go:build"

/-- A directive comment, with the line on which it begins. -/
structure Directive where
  form : DirectiveForm
  text : String
  line : Nat
deriving DecidableEq, Repr

/-- What follows `word` at the head of `cs`, if the word ends there. -/
def afterWord? (word cs : List Char) : Option (List Char) :=
  match word.isPrefixOf? cs with
  | none => none
  | some [] => some []
  | some (c :: rest) => if isBlank c then some (c :: rest) else none

/-- What follows `+build` in a comment of the older form. -/
def plusBuildBody? (cs : List Char) : Option (List Char) :=
  match cs with
  | '/' :: '/' :: rest => afterWord? "+build".toList (trimLeft rest)
  | _ => none

/-- What follows `go:build` in a comment of the newer form. -/
def goBuildBody? (cs : List Char) : Option (List Char) :=
  afterWord? "//go:build".toList cs

def directiveForm? (cs : List Char) : Option DirectiveForm :=
  if (plusBuildBody? cs).isSome then some .plusBuild
  else if (goBuildBody? cs).isSome then some .goBuild
  else none

end ImportSurvey.Source
