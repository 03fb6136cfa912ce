import ImportSurvey.Constraint.OfSource
import ImportSurvey.Proofs.Source.Directives
import Mathlib.Control.Monad.Basic
/-!
# Directive lines in conjunction

The constraint of a text read line by line. Reading a directive depends on the line it stands on
only for the line that an error names, so a comment line on top of a text contributes its value as
one more conjunct, and its error comes before all others.
-/

namespace ImportSurvey.Constraint

open Source

/-! ## The line of an error -/

def InvalidTerm.onLine (line : Option Nat) (e : InvalidTerm) : InvalidTerm :=
  { e with line := line }

private theorem mapM_mapError {α β ε ε' : Type} {f : α → Except ε β} {g : α → Except ε' β}
    {h : ε → ε'} (hfg : ∀ x, g x = (f x).mapError h) (xs : List α) :
    xs.mapM g = (xs.mapM f).mapError h := by
  induction xs with
  | nil => rfl
  | cons x xs ih =>
    rw [List.mapM_cons, List.mapM_cons, hfg, ih]
    cases f x with
    | error e => rfl
    | ok y => cases xs.mapM f <;> rfl

theorem readTerm_onLine (line : Option Nat) (cs : List Char) :
    readTerm line cs = (readTerm none cs).mapError (InvalidTerm.onLine line) := by
  unfold readTerm
  split
  · rfl
  · rfl
  · rfl

theorem readField_onLine (line : Option Nat) (field : List Char) :
    readField line field = (readField none field).mapError (InvalidTerm.onLine line) := by
  unfold readField
  rw [mapM_mapError (readTerm_onLine line)]
  cases (termsOf field).mapM (readTerm none) <;> rfl

theorem readPlusBuild_onLine (line : Option Nat) (comment : String) :
    readPlusBuild comment line =
      (readPlusBuild comment none).mapError (InvalidTerm.onLine line) := by
  unfold readPlusBuild
  rw [mapM_mapError (readField_onLine line)]
  cases (plusBuildFields comment.toList).mapM (readField none) <;> rfl

theorem readGoBuild_onLine (line : Option Nat) (comment : String) :
    readGoBuild comment line =
      (readGoBuild comment none).mapError (InvalidTerm.onLine line) := by
  unfold readGoBuild
  cases parseGoBuild comment with
  | ok constraint => rfl
  | error why => cases why <;> rfl

def ofForm (form : DirectiveForm) (text : String) : Except InvalidTerm (Option Expr) :=
  match form with
  | .plusBuild => readPlusBuild text none
  | .goBuild => readGoBuild text none

theorem ofDirective_eq (d : Directive) :
    ofDirective d = (ofForm d.form d.text).mapError (InvalidTerm.onLine (some d.line)) := by
  obtain ⟨form, text, line⟩ := d
  cases form with
  | plusBuild => exact readPlusBuild_onLine (some line) text
  | goBuild => exact readGoBuild_onLine (some line) text

def InvalidTerm.shift (lines : Nat) (e : InvalidTerm) : InvalidTerm :=
  { e with line := e.line.map (· + lines) }

theorem ofDirective_shift (lines : Nat) (d : Directive) :
    ofDirective (d.shift lines) = (ofDirective d).mapError (InvalidTerm.shift lines) := by
  rw [ofDirective_eq, ofDirective_eq]
  change (ofForm d.form d.text).mapError _ = _
  cases ofForm d.form d.text <;> rfl

/-! ## Values -/

def evaluateAll (tags : NameSet) (ds : List Directive) : Except InvalidTerm Bool :=
  (ofDirectives ds).map (holds tags)

theorem evaluate_eq (source : String) (tags : NameSet) :
    evaluate source tags = evaluateAll tags (directives source) := rfl

theorem evaluateAll_eq (tags : NameSet) (ds : List Directive) :
    evaluateAll tags ds = (ds.mapM ofDirective).map fun read => read.all (holds tags) := by
  have hall : ∀ read : List (Option Expr),
      (read.filterMap id).all (Expr.eval tags) = read.all (holds tags) := by
    intro read
    induction read with
    | nil => rfl
    | cons c read ih =>
      rw [List.all_cons, ← ih]
      cases c <;> rfl
  unfold evaluateAll ofDirectives
  cases ds.mapM ofDirective with
  | error e => rfl
  | ok read =>
    change Except.ok (holds tags (Expr.allOf (read.filterMap id))) = _
    rw [holds_allOf, hall]
    rfl

theorem evaluateAll_cons (tags : NameSet) (d : Directive) (ds : List Directive) :
    evaluateAll tags (d :: ds) =
      match (ofDirective d).map (holds tags) with
      | .error e => .error e
      | .ok v => (evaluateAll tags ds).map (v && ·) := by
  rw [evaluateAll_eq, evaluateAll_eq, List.mapM_cons]
  cases ofDirective d with
  | error e => rfl
  | ok c => cases ds.mapM ofDirective <;> rfl

theorem evaluateAll_shift (tags : NameSet) (lines : Nat) (ds : List Directive) :
    evaluateAll tags (ds.map (Directive.shift lines)) =
      (evaluateAll tags ds).mapError (InvalidTerm.shift lines) := by
  have hread : ds.mapM (ofDirective ∘ Directive.shift lines) =
      (ds.mapM ofDirective).mapError (InvalidTerm.shift lines) :=
    mapM_mapError (ofDirective_shift lines) ds
  rw [evaluateAll_eq, evaluateAll_eq, List.mapM_map, hread]
  cases ds.mapM ofDirective <;> rfl

/-! ## A line on top -/

/-- The value of a comment line on its own: that of its formula, if it is a directive and holds
one. -/
def lineValue (tags : NameSet) (l : String) : Except InvalidTerm Bool :=
  match directiveForm? l.toList with
  | some .plusBuild => (readPlusBuild l none).map (holds tags)
  | some .goBuild => (readGoBuild l none).map (holds tags)
  | none => .ok true

theorem lineValue_of_form {tags : NameSet} {l : String} {form : DirectiveForm}
    (h : directiveForm? l.toList = some form) :
    lineValue tags l = (ofForm form l).map (holds tags) := by
  unfold lineValue
  rw [h]
  cases form <;> rfl

/-- A comment line on top of a text that leaves no block open adds one conjunct. An invalid term on
it is reported first; one further down is reported whatever the value of the line is. -/
theorem evaluate_line (tags : NameSet) (l s : String) (hcomment : ['/', '/'] <+: l.toList)
    (hline : '\n' ∉ l.toList) (hclosed : leavesBlockOpen l.toList = false) :
    directives (l ++ "\n" ++ s) =
        ((directiveForm? l.toList).map fun form => ⟨form, l, 1⟩).toList ++
          (directives s).map (Directive.shift 1) ∧
      evaluate (l ++ "\n" ++ s) tags =
        match lineValue tags l with
        | .error e => .error ⟨e.term, some 1⟩
        | .ok v =>
          match evaluate s tags with
          | .error e => .error ⟨e.term, e.line.map (· + 1)⟩
          | .ok w => .ok (v && w) := by
  have hdirectives := directives_line hcomment hline hclosed (s := s)
  refine ⟨hdirectives, ?_⟩
  rw [evaluate_eq, hdirectives, evaluate_eq]
  cases hform : directiveForm? l.toList with
  | none =>
    have hvalue : lineValue tags l = .ok true := by
      unfold lineValue
      rw [hform]
    rw [hvalue]
    change evaluateAll tags ((directives s).map (Directive.shift 1)) = _
    rw [evaluateAll_shift]
    cases evaluateAll tags (directives s) <;> rfl
  | some form =>
    change evaluateAll tags (⟨form, l, 1⟩ :: (directives s).map (Directive.shift 1)) = _
    rw [evaluateAll_cons, evaluateAll_shift, ofDirective_eq, lineValue_of_form hform]
    cases ofForm form l with
    | error e => rfl
    | ok c => cases evaluateAll tags (directives s) <;> rfl

theorem evaluate_line_above_invalid :
    evaluate "// +build linux /* a */\n// +build !!x\npackage p\n" ∅ =
      .error ⟨"!!x", some 2⟩ := by
  have hvalue : lineValue ∅ "// +build linux /* a */" = .ok false := by decide +kernel
  have hbelow : evaluate "// +build !!x\npackage p\n" ∅ = .error ⟨"!!x", some 1⟩ := by
    decide +kernel
  have h := (evaluate_line ∅ "// +build linux /* a */" "// +build !!x\npackage p\n" (by decide)
    (by decide) (by decide)).2
  rw [hvalue, hbelow] at h
  exact h

end ImportSurvey.Constraint
