import ImportSurvey.Proofs.Constraint.Spelling
/-!
# Derivations of formulas

The grammar of formulas, as trees. A formula is disjuncts between `||`, a disjunct is conjuncts
between `&&`, and a conjunct is a tag, a negated conjunct or a formula between parentheses. Every
tree has its symbols, a value of its own and the expression that is read from it, which has the
same value.
-/

namespace ImportSurvey.Constraint

variable {ss rest xs ys : List Symbol} {s : Symbol}

mutual

inductive Disjunction
  | last (c : Conjunction)
  | or (c : Conjunction) (more : Disjunction)

inductive Conjunction
  | last (u : Operand)
  | and (u : Operand) (more : Conjunction)

inductive Operand
  | tag (name : String)
  | not (u : Operand)
  | group (d : Disjunction)

end

mutual

def Disjunction.symbols : Disjunction → List Symbol
  | .last c => c.symbols
  | .or c d => c.symbols ++ .or :: d.symbols

def Conjunction.symbols : Conjunction → List Symbol
  | .last u => u.symbols
  | .and u c => u.symbols ++ .and :: c.symbols

def Operand.symbols : Operand → List Symbol
  | .tag name => [.tag name]
  | .not u => .not :: u.symbols
  | .group d => .lparen :: (d.symbols ++ [.rparen])

end

mutual

def Disjunction.value (tags : NameSet) : Disjunction → Bool
  | .last c => c.value tags
  | .or c d => c.value tags || d.value tags

def Conjunction.value (tags : NameSet) : Conjunction → Bool
  | .last u => u.value tags
  | .and u c => u.value tags && c.value tags

def Operand.value (tags : NameSet) : Operand → Bool
  | .tag name => decide (name ∈ tags)
  | .not u => !u.value tags
  | .group d => d.value tags

end

mutual

/-- What is read from the symbols of a tree, the first operand apart. -/
def Disjunction.operands : Disjunction → Expr × List Expr
  | .last c => (Expr.conjoin c.operands.1 c.operands.2, [])
  | .or c d => (Expr.conjoin c.operands.1 c.operands.2, d.operands.1 :: d.operands.2)

def Conjunction.operands : Conjunction → Expr × List Expr
  | .last u => (u.formula, [])
  | .and u c => (u.formula, c.operands.1 :: c.operands.2)

def Operand.formula : Operand → Expr
  | .tag name => .tag name
  | .not u => .not u.formula
  | .group d => Expr.disjoin d.operands.1 d.operands.2

end

def Disjunction.formula (d : Disjunction) : Expr :=
  Expr.disjoin d.operands.1 d.operands.2

theorem Operand.symbols_ne_nil (u : Operand) : u.symbols ≠ [] := by
  cases u with
  | tag name => simp [Operand.symbols]
  | not u => simp [Operand.symbols]
  | group d => simp [Operand.symbols]

theorem Operand.exists_of_head?_not {u : Operand} (h : u.symbols.head? = some .not) :
    ∃ v, u = .not v := by
  cases u with
  | tag name => simp [Operand.symbols] at h
  | not v => exact ⟨v, rfl⟩
  | group d => simp [Operand.symbols] at h

/-! ## The value of what is read -/

mutual

theorem Disjunction.any_operands (tags : NameSet) :
    ∀ d : Disjunction, (d.operands.1 :: d.operands.2).any (Expr.eval tags) = d.value tags
  | .last c => by
    rw [Disjunction.operands, Disjunction.value, List.any_cons, List.any_nil, Bool.or_false,
      Expr.eval_conjoin, c.all_operands tags]
  | .or c d => by
    rw [Disjunction.operands, Disjunction.value, List.any_cons, Expr.eval_conjoin,
      c.all_operands tags, d.any_operands tags]

theorem Conjunction.all_operands (tags : NameSet) :
    ∀ c : Conjunction, (c.operands.1 :: c.operands.2).all (Expr.eval tags) = c.value tags
  | .last u => by
    rw [Conjunction.operands, Conjunction.value, List.all_cons, List.all_nil, Bool.and_true,
      u.eval_formula tags]
  | .and u c => by
    rw [Conjunction.operands, Conjunction.value, List.all_cons, u.eval_formula tags,
      c.all_operands tags]

theorem Operand.eval_formula (tags : NameSet) :
    ∀ u : Operand, u.formula.eval tags = u.value tags
  | .tag name => by rw [Operand.formula, Operand.value, Expr.eval]
  | .not u => by rw [Operand.formula, Operand.value, Expr.eval, u.eval_formula tags]
  | .group d => by
    rw [Operand.formula, Operand.value, Expr.eval_disjoin, d.any_operands tags]

end

theorem Disjunction.eval_formula (tags : NameSet) (d : Disjunction) :
    d.formula.eval tags = d.value tags := by
  rw [Disjunction.formula, Expr.eval_disjoin, d.any_operands tags]

/-! ## Adjacent negations -/

def NegatesTwice (ss : List Symbol) : Prop :=
  [.not, .not] <:+: ss

instance (ss : List Symbol) : Decidable (NegatesTwice ss) :=
  inferInstanceAs (Decidable ([.not, .not] <:+: ss))

theorem not_negatesTwice_nil : ¬ NegatesTwice [] := by
  simp [NegatesTwice]

theorem negatesTwice_cons :
    NegatesTwice (s :: ss) ↔ (s = .not ∧ ss.head? = some .not) ∨ NegatesTwice ss := by
  unfold NegatesTwice
  rw [List.infix_cons_iff, List.cons_prefix_cons]
  cases ss with
  | nil => simp
  | cons t ss => simp [List.cons_prefix_cons, eq_comm]

theorem negatesTwice_cons_of_ne (hs : s ≠ .not) : NegatesTwice (s :: ss) ↔ NegatesTwice ss := by
  simp [negatesTwice_cons, hs]

theorem negatesTwice_append_cons (hs : s ≠ .not) :
    NegatesTwice (xs ++ s :: ys) ↔ NegatesTwice xs ∨ NegatesTwice ys := by
  induction xs with
  | nil => simp [negatesTwice_cons_of_ne hs, not_negatesTwice_nil]
  | cons x xs ih =>
    have hhead : (xs ++ s :: ys).head? = some .not ↔ xs.head? = some .not := by
      cases xs with
      | nil => simp [hs]
      | cons y xs => rfl
    rw [List.cons_append, negatesTwice_cons, negatesTwice_cons, ih, hhead, or_assoc]

theorem NegatesTwice.of_suffix (h : NegatesTwice rest) (hsuffix : rest <:+ ss) :
    NegatesTwice ss :=
  h.trans hsuffix.isInfix

end ImportSurvey.Constraint
