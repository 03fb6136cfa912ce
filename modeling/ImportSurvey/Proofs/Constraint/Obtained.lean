import ImportSurvey.Constraint.OfSource
import ImportSurvey.Proofs.Constraint.Flattening
import ImportSurvey.Proofs.Constraint.FormulaGrammar
/-!
# The formulas that are read

Every formula that a comment or a source text is read as can be written: its tags are the tags of a
text, and its conjunctions and disjunctions come from rows of two operands or more.
-/

namespace ImportSurvey.Constraint

open Text Source

variable {e : Expr} {es : List Expr} {line : Option Nat}

/-- The formulas that some comment or some source text is read as. -/
inductive Obtained : Expr → Prop
  | plusBuild {comment : String} {line : Option Nat} {e : Expr}
      (h : readPlusBuild comment line = .ok (some e)) : Obtained e
  | goBuild {comment : String} {line : Option Nat} {e : Expr}
      (h : readGoBuild comment line = .ok (some e)) : Obtained e
  | source {text : String} {e : Expr} (h : ofSource text = .ok (some e)) : Obtained e

/-! ## Rows of formulas -/

theorem Expr.Proper.conjoin (h : ∀ f ∈ e :: es, f.Proper) : (Expr.conjoin e es).Proper := by
  cases es with
  | nil => exact h e List.mem_cons_self
  | cons f es => exact .and (by simp) h

theorem Expr.Proper.disjoin (h : ∀ f ∈ e :: es, f.Proper) : (Expr.disjoin e es).Proper := by
  cases es with
  | nil => exact h e List.mem_cons_self
  | cons f es => exact .or (by simp) h

theorem Expr.Proper.of_allOf (h : ∀ f ∈ es, f.Proper) (hall : Expr.allOf es = some e) :
    e.Proper := by
  cases es with
  | nil => contradiction
  | cons f es =>
    obtain rfl := Option.some.inj hall
    exact .conjoin h

theorem Expr.Proper.of_anyOf (h : ∀ f ∈ es, f.Proper) (hany : Expr.anyOf es = some e) :
    e.Proper := by
  cases es with
  | nil => contradiction
  | cons f es =>
    obtain rfl := Option.some.inj hany
    exact .disjoin h

private theorem forall_of_mapM_eq_ok {α β ε : Type} {f : α → Except ε β} {P : β → Prop}
    {xs : List α} {ys : List β} (hstep : ∀ x ∈ xs, ∀ y, f x = .ok y → P y)
    (h : xs.mapM f = .ok ys) :
    ∀ y ∈ ys, P y := by
  induction xs generalizing ys with
  | nil =>
    obtain rfl := Except.ok.inj h
    simp
  | cons x xs ih =>
    rw [List.mapM_cons] at h
    cases hfirst : f x with
    | error why =>
      rw [hfirst] at h
      contradiction
    | ok y =>
      cases hmore : xs.mapM f with
      | error why =>
        rw [hfirst, hmore] at h
        contradiction
      | ok zs =>
        rw [hfirst, hmore] at h
        obtain rfl := Except.ok.inj h
        have hy := hstep x List.mem_cons_self y hfirst
        have hzs := ih (fun w hw => hstep w (List.mem_cons_of_mem x hw)) hmore
        intro z hz
        rcases List.mem_cons.1 hz with rfl | hz
        · exact hy
        · exact hzs z hz

theorem Expr.Proper.of_mapM {α ε : Type} {g : α → Except ε (Option Expr)} {xs : List α}
    {read : List (Option Expr)} (hstep : ∀ x ∈ xs, ∀ f, g x = .ok (some f) → f.Proper)
    (h : xs.mapM g = .ok read) : ∀ f ∈ read.filterMap id, f.Proper := by
  intro f hf
  obtain ⟨c, hc, rfl⟩ := List.mem_filterMap.1 hf
  have hread := forall_of_mapM_eq_ok (P := fun c => ∀ f, c = some f → f.Proper)
    (fun x hx c hc f hf => hstep x hx f (hf ▸ hc)) h
  exact hread (some f) hc f rfl

/-! ## Comments of the older form -/

theorem Expr.Proper.of_readTerm {cs : List Char} (hterm : isTerm cs = true)
    (h : readTerm line cs = .ok e) : e.Proper := by
  simp only [isTerm, Bool.and_eq_true, Bool.not_eq_true', List.isEmpty_eq_false_iff,
    List.all_eq_true] at hterm
  have htag : (Expr.tag (String.ofList (cs.dropWhile (· == '!')))).Proper := by
    refine .tag ?_
    rw [String.toList_ofList]
    exact hterm
  unfold readTerm at h
  split at h
  · obtain rfl := Except.ok.inj h
    exact htag
  · obtain rfl := Except.ok.inj h
    exact .not htag
  · contradiction

theorem Expr.Proper.of_readField {field : List Char} (hfield : isTermList field = true)
    (h : readField line field = .ok (some e)) : e.Proper := by
  rw [isTermList, List.all_eq_true] at hfield
  unfold readField at h
  cases hread : (termsOf field).mapM (readTerm line) with
  | error why =>
    rw [hread] at h
    contradiction
  | ok es =>
    rw [hread] at h
    have hes := forall_of_mapM_eq_ok
      (fun cs hcs f hf => Expr.Proper.of_readTerm (hfield cs hcs) hf) hread
    exact .of_allOf hes (Except.ok.inj h)

theorem isTermList_of_mem_plusBuildFields {comment field : List Char}
    (h : field ∈ plusBuildFields comment) : isTermList field = true := by
  unfold plusBuildFields at h
  split at h
  · simp at h
  · exact List.all_eq_true.1 List.all_takeWhile field h

theorem Expr.Proper.of_readPlusBuild {comment : String}
    (h : readPlusBuild comment line = .ok (some e)) : e.Proper := by
  unfold readPlusBuild at h
  cases hread : (plusBuildFields comment.toList).mapM (readField line) with
  | error why =>
    rw [hread] at h
    contradiction
  | ok read =>
    rw [hread] at h
    have hfields : ∀ f ∈ read.filterMap id, f.Proper :=
      Expr.Proper.of_mapM (fun field hfield f hf =>
        .of_readField (isTermList_of_mem_plusBuildFields hfield) hf) hread
    exact .of_anyOf hfields (Except.ok.inj h)

/-! ## Comments of the newer form -/

mutual

theorem Disjunction.proper_operands : ∀ d : Disjunction,
    (∀ name, .tag name ∈ d.symbols → IsTag name.toList) →
      ∀ f ∈ d.operands.1 :: d.operands.2, f.Proper
  | .last c, htags, f, hf => by
    rw [Disjunction.operands, List.mem_singleton] at hf
    rw [hf]
    exact .conjoin (c.proper_operands htags)
  | .or c d, htags, f, hf => by
    simp only [Disjunction.symbols, List.mem_append, List.mem_cons] at htags
    rw [Disjunction.operands, List.mem_cons] at hf
    rcases hf with rfl | hf
    · exact .conjoin (c.proper_operands fun name h => htags name (.inl h))
    · exact d.proper_operands (fun name h => htags name (.inr (.inr h))) f hf

theorem Conjunction.proper_operands : ∀ c : Conjunction,
    (∀ name, .tag name ∈ c.symbols → IsTag name.toList) →
      ∀ f ∈ c.operands.1 :: c.operands.2, f.Proper
  | .last u, htags, f, hf => by
    rw [Conjunction.operands, List.mem_singleton] at hf
    rw [hf]
    exact u.proper_formula htags
  | .and u c, htags, f, hf => by
    simp only [Conjunction.symbols, List.mem_append, List.mem_cons] at htags
    rw [Conjunction.operands, List.mem_cons] at hf
    rcases hf with rfl | hf
    · exact u.proper_formula fun name h => htags name (.inl h)
    · exact c.proper_operands (fun name h => htags name (.inr (.inr h))) f hf

theorem Operand.proper_formula : ∀ u : Operand,
    (∀ name, .tag name ∈ u.symbols → IsTag name.toList) → u.formula.Proper
  | .tag name, htags => .tag (htags name (List.mem_singleton.2 rfl))
  | .not u, htags => .not (u.proper_formula fun name h => htags name (List.mem_cons_of_mem _ h))
  | .group d, htags => by
    simp only [Operand.symbols, List.mem_append, List.mem_cons] at htags
    exact .disjoin (d.proper_operands fun name h => htags name (.inr (.inl h)))

end

theorem exists_of_readGoBuild {comment : String} (h : readGoBuild comment line = .ok (some e)) :
    ∃ cs, ∃ d : Disjunction, Spelled cs d.symbols ∧ d.formula = e := by
  cases hbody : goBuildBody? (trim comment.toList) with
  | none =>
    rw [readGoBuild_of_no_body line hbody] at h
    cases h
  | some body =>
    by_cases hspelled : ∃ ss, Spelled (formulaText body) ss
    · obtain ⟨ss, hss⟩ := hspelled
      rw [readGoBuild_of_spelled line hbody hss] at h
      cases hformula : formula ss with
      | error why =>
        rw [hformula] at h
        cases why with
        | malformed reason => cases h
        | doubleNegation operand => cases h
      | ok f =>
        rw [hformula] at h
        obtain rfl := Option.some.inj (Except.ok.inj h)
        obtain ⟨d, hd, rfl⟩ := exists_of_formula_eq_ok hformula
        exact ⟨formulaText body, d, hss, hd⟩
    · rw [readGoBuild_of_not_spelled line hbody (not_exists.1 hspelled)] at h
      cases h

theorem Expr.Proper.of_readGoBuild {comment : String}
    (h : readGoBuild comment line = .ok (some e)) : e.Proper := by
  obtain ⟨cs, d, hspelled, rfl⟩ := exists_of_readGoBuild h
  exact .disjoin (d.proper_operands fun name hname => hspelled.isTag hname)

/-! ## Source texts -/

theorem Expr.Proper.of_ofDirective {d : Directive} (h : ofDirective d = .ok (some e)) :
    e.Proper := by
  unfold ofDirective at h
  split at h
  · exact .of_readPlusBuild h
  · exact .of_readGoBuild h

theorem Expr.Proper.of_ofSource {text : String} (h : ofSource text = .ok (some e)) : e.Proper := by
  unfold ofSource ofDirectives at h
  cases hread : (directives text).mapM ofDirective with
  | error why =>
    rw [hread] at h
    contradiction
  | ok read =>
    rw [hread] at h
    have hlines : ∀ f ∈ read.filterMap id, f.Proper :=
      Expr.Proper.of_mapM (fun d hd f hf => .of_ofDirective hf) hread
    exact .of_allOf hlines (Except.ok.inj h)

theorem Obtained.proper (h : Obtained e) : e.Proper := by
  cases h with
  | plusBuild h => exact .of_readPlusBuild h
  | goBuild h => exact .of_readGoBuild h
  | source h => exact .of_ofSource h

end ImportSurvey.Constraint
