import ImportSurvey.Analysis
import ImportSurvey.Proofs.Constraint.Alternatives
import ImportSurvey.Proofs.Constraint.Conjunction
import ImportSurvey.Proofs.Constraint.Obtained
import ImportSurvey.Proofs.Constraint.WrittenFormula
import ImportSurvey.Proofs.Platform.FileName
import ImportSurvey.Proofs.Text.Elements
/-!
# More tags

A constraint written without `!` goes on to hold when more tags are set. The symbols and terms of a
comment are made of its own characters, so that no negation comes up in what is read from it; and
without one, what holds for some tags holds for more. The same is true of what a file name asks for,
so a file that is part of a build stays part of it.
-/

namespace ImportSurvey.Constraint

open Text Source

variable {tags more : NameSet} {cs rest body comment : List Char} {ss : List Symbol}

/-- A constraint that goes on to hold when more tags are set. -/
def Persists (constraint : Option Expr) : Prop :=
  ∀ tags more : NameSet, (∀ a ∈ tags, a ∈ more) → holds tags constraint = true →
    holds more constraint = true

/-! ## The characters of a comment -/

theorem afterWord?_subset {word : List Char} (h : afterWord? word cs = some rest) : rest ⊆ cs := by
  unfold afterWord? at h
  split at h
  · contradiction
  · obtain rfl := Option.some.inj h
    exact List.nil_subset cs
  · rename_i c more hprefix
    split at h
    · obtain rfl := Option.some.inj h
      rw [isPrefixOf?_eq_some.1 hprefix]
      exact List.subset_append_right word _
    · contradiction

private theorem formulaText_subset (h : goBuildBody? (trim comment) = some body) :
    formulaText body ⊆ comment := by
  intro c hc
  have hbody : c ∈ body := before_subset _ body (before_subset _ _ hc)
  exact trim_subset comment (afterWord?_subset h hbody)

theorem plusBuildBody?_subset (h : plusBuildBody? cs = some rest) : rest ⊆ cs := by
  unfold plusBuildBody? at h
  split at h
  · intro c hc
    have htrim := (List.dropWhile_suffix isBlank).subset (afterWord?_subset h hc)
    simp [htrim]
  · contradiction

theorem plusBuildFields_subset {field : List Char} (h : field ∈ plusBuildFields comment) :
    field ⊆ comment := by
  unfold plusBuildFields at h
  split at h
  · contradiction
  · rename_i body hbody
    have hfield : field ∈ fields body := (List.takeWhile_sublist isTermList).subset h
    intro c hc
    have hc' : c ∈ body := (of_mem_splitOnP (List.mem_filter.1 hfield).1 hc).1
    exact trim_subset comment (plusBuildBody?_subset hbody hc')

/-! ## Formulas without negation -/

theorem Spelled.bang_mem (h : Spelled cs ss) (hnot : .not ∈ ss) : '!' ∈ cs := by
  induction h with
  | nil => contradiction
  | blank hc more ih => exact List.mem_cons_of_mem _ (ih hnot)
  | mark hs more ih =>
    rcases List.mem_cons.1 hnot with rfl | htail
    · exact List.mem_cons_self
    · exact List.mem_append_right _ (ih htail)
  | tag hname hends more ih =>
    rcases List.mem_cons.1 hnot with heq | htail
    · contradiction
    · exact List.mem_append_right _ (ih htail)

theorem NegatesTwice.not_mem (h : NegatesTwice ss) : .not ∈ ss :=
  h.subset List.mem_cons_self

mutual

-- by recursion on the tree, which has no case for a negation
theorem Disjunction.value_mono (h : ∀ a ∈ tags, a ∈ more) : ∀ d : Disjunction,
    .not ∉ d.symbols → d.value tags = true → d.value more = true
  | .last c, hnot, hvalue => c.value_mono h hnot hvalue
  | .or c d, hnot, hvalue => by
    simp only [Disjunction.symbols, List.mem_append, List.mem_cons, not_or] at hnot
    rw [Disjunction.value, Bool.or_eq_true] at hvalue ⊢
    exact hvalue.imp (c.value_mono h hnot.1) (d.value_mono h hnot.2.2)

theorem Conjunction.value_mono (h : ∀ a ∈ tags, a ∈ more) : ∀ c : Conjunction,
    .not ∉ c.symbols → c.value tags = true → c.value more = true
  | .last u, hnot, hvalue => u.value_mono h hnot hvalue
  | .and u c, hnot, hvalue => by
    simp only [Conjunction.symbols, List.mem_append, List.mem_cons, not_or] at hnot
    rw [Conjunction.value, Bool.and_eq_true] at hvalue ⊢
    exact hvalue.imp (u.value_mono h hnot.1) (c.value_mono h hnot.2.2)

theorem Operand.value_mono (h : ∀ a ∈ tags, a ∈ more) : ∀ u : Operand,
    .not ∉ u.symbols → u.value tags = true → u.value more = true
  | .tag name, _, hvalue => by
    simp only [Operand.value, decide_eq_true_eq] at hvalue ⊢
    exact h name hvalue
  | .not u, hnot, _ => absurd List.mem_cons_self hnot
  | .group d, hnot, hvalue => by
    simp only [Operand.symbols, List.mem_append, List.mem_cons, not_or] at hnot
    exact d.value_mono h hnot.2.1 hvalue

end

theorem Disjunction.persists_formula {d : Disjunction} (h : .not ∉ d.symbols) :
    Persists (some d.formula) := by
  intro tags more hmore hholds
  rw [holds, Option.all_some, d.eval_formula] at hholds ⊢
  exact d.value_mono hmore h hholds

theorem persists_none : Persists none :=
  fun _ _ _ _ => rfl

/-! ## Comments without negation -/

theorem exists_of_readGoBuild_of_bang_not_mem {comment : String} (line : Option Nat)
    (h : '!' ∉ comment.toList) :
    ∃ constraint, readGoBuild comment line = .ok constraint ∧ Persists constraint := by
  cases hbody : goBuildBody? (trim comment.toList) with
  | none => exact ⟨none, readGoBuild_of_no_body line hbody, persists_none⟩
  | some body =>
    by_cases hspelled : ∃ ss, Spelled (formulaText body) ss
    · obtain ⟨ss, hss⟩ := hspelled
      have hnot : .not ∉ ss := fun hmem => h (formulaText_subset hbody (hss.bang_mem hmem))
      rw [readGoBuild_of_spelled line hbody hss]
      cases hformula : formula ss with
      | ok e =>
        obtain ⟨d, rfl, rfl⟩ := exists_of_formula_eq_ok hformula
        exact ⟨some d.formula, rfl, d.persists_formula hnot⟩
      | error why =>
        cases why with
        | malformed reason => exact ⟨none, rfl, persists_none⟩
        | doubleNegation operand =>
          have htwice := negatesTwice_of_refuses_formula ⟨operand, hformula⟩
          exact absurd htwice.not_mem hnot
    · exact ⟨none, readGoBuild_of_not_spelled line hbody (not_exists.1 hspelled), persists_none⟩

theorem Alternative.text_subset {a : Alternative} {t : Term} (h : t ∈ a.terms) :
    t.text ⊆ a.text := by
  have hterm : t.text ∈ termsOf a.text := by
    rw [a.termsOf_text]
    exact List.mem_map_of_mem h
  exact fun c hc => (of_mem_splitOnP hterm hc).1

theorem Term.marks_eq_zero {t : Term} (h : '!' ∉ t.text) : t.marks = 0 := by
  by_contra hne
  exact h (List.mem_append_left _ (List.mem_replicate.2 ⟨hne, rfl⟩))

theorem Term.isInvalid_eq_false {t : Term} (h : t.marks = 0) : t.isInvalid = false := by
  simp [isInvalid, h]

theorem persists_anyOf {as : List Alternative}
    (h : ∀ t ∈ as.flatMap Alternative.terms, t.marks = 0) :
    Persists (Expr.anyOf (as.map Alternative.formula)) := by
  by_cases hempty : as = []
  · subst hempty
    exact persists_none
  · obtain ⟨e, he, heval⟩ := exists_anyOf hempty fun t ht => Term.isInvalid_eq_false (h t ht)
    rw [he]
    intro tags more hmore hholds
    obtain ⟨a, ha, hall⟩ := (heval tags).1 hholds
    refine (heval more).2 ⟨a, ha, fun t ht => ?_⟩
    have hzero : t.marks = 0 := h t (List.mem_flatMap.2 ⟨a, ha, ht⟩)
    exact ⟨fun _ => hmore _ ((hall t ht).1 hzero), fun hone => by omega⟩

theorem exists_of_readPlusBuild_of_bang_not_mem {comment : String} (line : Option Nat)
    (h : '!' ∉ comment.toList) :
    ∃ constraint, readPlusBuild comment line = .ok constraint ∧ Persists constraint := by
  have hfields : ∀ field ∈ plusBuildFields comment.toList, isTermList field = true :=
    fun field hfield => isTermList_of_mem_plusBuildFields hfield
  obtain ⟨as, has⟩ := exists_map_alternative_text hfields
  have hmarks : ∀ t ∈ as.flatMap Alternative.terms, t.marks = 0 := by
    intro t ht
    obtain ⟨a, ha, hmem⟩ := List.mem_flatMap.1 ht
    have hfield : a.text ∈ plusBuildFields comment.toList := has ▸ List.mem_map_of_mem ha
    exact Term.marks_eq_zero fun hbang =>
      h (plusBuildFields_subset hfield (Alternative.text_subset hmem hbang))
  have hnone : (as.flatMap Alternative.terms).find? Term.isInvalid = none :=
    List.find?_eq_none.2 fun t ht => by simp [Term.isInvalid_eq_false (hmarks t ht)]
  refine ⟨_, ?_, persists_anyOf hmarks⟩
  rw [readPlusBuild_of_fields has line, hnone]
  rfl

theorem exists_of_ofDirective_of_bang_not_mem {d : Directive} (h : '!' ∉ d.text.toList) :
    ∃ constraint, ofDirective d = .ok constraint ∧ Persists constraint := by
  unfold ofDirective
  split
  · exact exists_of_readPlusBuild_of_bang_not_mem _ h
  · exact exists_of_readGoBuild_of_bang_not_mem _ h

/-! ## Texts without negation -/

private theorem exists_mapM_eq_ok {α β ε : Type} {f : α → Except ε β} {P : β → Prop} {xs : List α}
    (h : ∀ x ∈ xs, ∃ y, f x = .ok y ∧ P y) : ∃ ys, xs.mapM f = .ok ys ∧ ∀ y ∈ ys, P y := by
  induction xs with
  | nil => exact ⟨[], rfl, List.forall_mem_nil _⟩
  | cons x xs ih =>
    obtain ⟨hx, hxs⟩ := List.forall_mem_cons.1 h
    obtain ⟨y, hfirst, hy⟩ := hx
    obtain ⟨ys, hmore, hys⟩ := ih hxs
    refine ⟨y :: ys, ?_, List.forall_mem_cons.2 ⟨hy, hys⟩⟩
    rw [List.mapM_cons, hfirst, hmore]
    rfl

/-- A text whose directives negate nothing has a value for all tags, which stays true when tags are
added. -/
theorem exists_evaluate_mono {source : String}
    (h : ∀ d ∈ directives source, '!' ∉ d.text.toList) :
    ∃ value : NameSet → Bool, (∀ tags, evaluate source tags = .ok (value tags)) ∧
      ∀ tags more, (∀ a ∈ tags, a ∈ more) → value tags = true → value more = true := by
  obtain ⟨read, hread, hpersists⟩ :=
    exists_mapM_eq_ok fun d hd => exists_of_ofDirective_of_bang_not_mem (h d hd)
  refine ⟨fun tags => read.all (holds tags), fun tags => ?_, fun tags more hmore hall => ?_⟩
  · rw [evaluate_eq, evaluateAll_eq, hread]
    rfl
  · rw [List.all_eq_true] at hall ⊢
    exact fun constraint hmem => hpersists constraint hmem tags more hmore (hall constraint hmem)

end ImportSurvey.Constraint

namespace ImportSurvey

variable {source : String} {tags more : NameSet} {fileName : Option String} {value : Bool}

/-! ## Verdicts -/

theorem analyze_of_evaluate (h : Constraint.evaluate source tags = .ok value) :
    analyze source tags fileName = .ok
      (if fileName.all (Platform.nameAllows · tags) then
        if value then .ofIncluded source else .excluded .excludedByTags
      else .excluded .excludedByFileName) := by
  unfold analyze
  rw [h]
  split <;> rfl

private theorem all_nameAllows_mono (h : ∀ a ∈ tags, a ∈ more)
    (hname : fileName.all (Platform.nameAllows · tags) = true) :
    fileName.all (Platform.nameAllows · more) = true := by
  cases fileName with
  | none => rfl
  | some name =>
    rw [Option.all_some] at hname ⊢
    exact Platform.nameAllows_mono h hname

/-- Tags that are added never take a file out of the build whose directives negate nothing, and its
imports and package stay what they were. -/
theorem analyze_mono (h : ∀ a ∈ tags, a ∈ more)
    (hsource : ∀ d ∈ Source.directives source, '!' ∉ d.text.toList) (fileName : Option String) :
    ∃ report report', analyze source tags fileName = .ok report ∧
      analyze source more fileName = .ok report' ∧
      (report.verdict = .included → report' = report) := by
  obtain ⟨value, hvalue, hmono⟩ := Constraint.exists_evaluate_mono hsource
  refine ⟨_, _, analyze_of_evaluate (hvalue tags), analyze_of_evaluate (hvalue more), ?_⟩
  intro hincluded
  by_cases hname : fileName.all (Platform.nameAllows · tags) = true
  · cases hholds : value tags with
    | true => rw [if_pos hname, if_pos (all_nameAllows_mono h hname), hmono tags more h hholds]
    | false => simp [hname, hholds, FileReport.excluded] at hincluded
  · simp [hname, FileReport.excluded] at hincluded

def forBrowsers : String :=
  "//go:build (js || wasip1) && wasm\n// +build cgo js,wasm (v1)\npackage p\nimport \"x\"\n"

def plainBuild : NameSet :=
  ⟨["js", "wasm"], by decide⟩

def raceBuild : NameSet :=
  ⟨["js", "race", "wasm"], by decide⟩

/-- A race build of the file imports what a plain one does. -/
theorem analyze_mono_forBrowsers :
    analyze forBrowsers plainBuild (some "p_js_wasm.go") = .ok ⟨.included, ["x"], some "p"⟩ ∧
      analyze forBrowsers raceBuild (some "p_js_wasm.go") = .ok ⟨.included, ["x"], some "p"⟩ := by
  have hdirectives : Source.directives forBrowsers =
      [⟨.goBuild, "//go:build (js || wasip1) && wasm", 1⟩,
        ⟨.plusBuild, "// +build cgo js,wasm (v1)", 2⟩] := by
    decide +kernel
  have hformula : Constraint.formula
      [.lparen, .tag "js", .or, .tag "wasip1", .rparen, .and, .tag "wasm"] =
        .ok (.and [.or [.tag "js", .tag "wasip1"], .tag "wasm"]) := by
    let systems : Constraint.Disjunction := .or (.last (.tag "js")) (.last (.last (.tag "wasip1")))
    have htree : ¬ Constraint.NegatesTwice
        (Constraint.Disjunction.last (.and (.group systems) (.last (.tag "wasm")))).symbols := by
      decide
    exact Constraint.formula_symbols htree
  have hread : Constraint.ofDirective ⟨.goBuild, "//go:build (js || wasip1) && wasm", 1⟩ =
      .ok (some (.and [.or [.tag "js", .tag "wasip1"], .tag "wasm"])) := by
    have hspelled : Constraint.Spelled "(js || wasip1) && wasm".toList
        [.lparen, .tag "js", .or, .tag "wasip1", .rparen, .and, .tag "wasm"] :=
      Constraint.spelled_of_symbols (by decide +kernel)
    have htext : "//go:build " ++ "(js || wasip1) && wasm" =
        "//go:build (js || wasip1) && wasm" := by
      decide +kernel
    have hread := Constraint.readGoBuild_spelled (some 1) hspelled
    rwa [hformula, htext] at hread
  have hevaluate : Constraint.evaluate forBrowsers plainBuild = .ok true := by
    rw [Constraint.evaluate_eq, hdirectives, Constraint.evaluateAll_cons, hread]
    decide +kernel
  have hincluded : analyze forBrowsers plainBuild (some "p_js_wasm.go") =
      .ok ⟨.included, ["x"], some "p"⟩ := by
    rw [analyze_of_evaluate hevaluate]
    decide +kernel
  have hmore : ∀ a ∈ plainBuild.names, a ∈ raceBuild.names := by decide
  have hpositive : ∀ d ∈ Source.directives forBrowsers, '!' ∉ d.text.toList := by
    rw [hdirectives]
    decide
  obtain ⟨report, report', hreport, hreport', hsame⟩ :=
    analyze_mono hmore hpositive (some "p_js_wasm.go")
  rw [hincluded] at hreport
  obtain rfl := Except.ok.inj hreport
  exact ⟨hincluded, hreport'.trans (congrArg Except.ok (hsame rfl))⟩

end ImportSurvey
