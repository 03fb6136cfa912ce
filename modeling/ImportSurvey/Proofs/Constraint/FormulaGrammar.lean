import ImportSurvey.Proofs.Constraint.Derivation
/-!
# The grammar of `go:build` comments

The readers of formulas and the grammar agree. From the symbols of a tree they read the expression
of this tree, unless two negations are adjacent, which is an error; what they read comes from a
tree. A comment is read so from the symbols that it spells.
-/

namespace ImportSurvey.Constraint

open Text Source

variable {ss rest : List Symbol}

/-! ## One step of the readers -/

def outcome {α : Type} {ss : List Symbol} (r : Except Fault (Reading α ss)) :
    Except Fault (α × List Symbol) :=
  r.map fun read => (read.value, read.rest)

theorem outcome_tag (name : String) (rest : List Symbol) :
    outcome (operand (.tag name :: rest)) = .ok (.tag name, rest) := by
  rw [operand]
  rfl

theorem outcome_not_not (rest : List Symbol) :
    outcome (operand (.not :: .not :: rest)) =
      .error (.doubleNegation ((rest.head?.map Symbol.text).getD "")) := by
  rw [operand]
  rfl

theorem outcome_not (h : rest.head? ≠ some .not) :
    outcome (operand (.not :: rest)) =
      (outcome (operand rest)).map fun p => (.not p.1, p.2) := by
  rw [operand]
  · cases operand rest <;> rfl
  · rintro more rfl
    exact h rfl

theorem outcome_group (rest : List Symbol) :
    outcome (operand (.lparen :: rest)) =
      match outcome (disjuncts rest) with
      | .error why => .error why
      | .ok (es, .rparen :: after) => .ok (Expr.disjoin es.1 es.2, after)
      | .ok (_, []) => .error (.malformed .unexpectedEnd)
      | .ok _ => .error (.malformed .missingParenthesis) := by
  rw [operand]
  cases disjuncts rest with
  | error why => rfl
  | ok read =>
    obtain ⟨es, after, hshorter⟩ := read
    cases after with
    | nil => rfl
    | cons s after => cases s <;> rfl

theorem outcome_conjuncts (ss : List Symbol) :
    outcome (conjuncts ss) =
      match outcome (operand ss) with
      | .error why => .error why
      | .ok (e, .and :: rest) => (outcome (conjuncts rest)).map fun p => ((e, p.1.1 :: p.1.2), p.2)
      | .ok (e, rest) => .ok ((e, []), rest) := by
  rw [conjuncts]
  cases operand ss with
  | error why => rfl
  | ok read =>
    obtain ⟨e, rest, hshorter⟩ := read
    cases rest with
    | nil => rfl
    | cons s rest =>
      cases s with
      | and =>
        change outcome (do let more ← conjuncts rest; _) = (outcome (conjuncts rest)).map _
        cases conjuncts rest <;> rfl
      | _ => rfl

theorem outcome_disjuncts (ss : List Symbol) :
    outcome (disjuncts ss) =
      match outcome (conjuncts ss) with
      | .error why => .error why
      | .ok (es, .or :: rest) =>
        (outcome (disjuncts rest)).map fun p =>
          ((Expr.conjoin es.1 es.2, p.1.1 :: p.1.2), p.2)
      | .ok (es, rest) => .ok ((Expr.conjoin es.1 es.2, []), rest) := by
  rw [disjuncts]
  cases conjuncts ss with
  | error why => rfl
  | ok read =>
    obtain ⟨es, rest, hshorter⟩ := read
    cases rest with
    | nil => rfl
    | cons s rest =>
      cases s with
      | or =>
        change outcome (do let more ← disjuncts rest; _) = (outcome (disjuncts rest)).map _
        cases disjuncts rest <;> rfl
      | _ => rfl

variable {why : Fault} {e : Expr} {es : Expr × List Expr}

theorem outcome_conjuncts_error (h : outcome (operand ss) = .error why) :
    outcome (conjuncts ss) = .error why := by
  rw [outcome_conjuncts, h]

theorem outcome_conjuncts_last (h : outcome (operand ss) = .ok (e, rest))
    (hand : rest.head? ≠ some .and) : outcome (conjuncts ss) = .ok ((e, []), rest) := by
  rw [outcome_conjuncts, h]
  cases rest with
  | nil => rfl
  | cons s rest =>
    cases s with
    | and => simp at hand
    | _ => rfl

theorem outcome_conjuncts_and (h : outcome (operand ss) = .ok (e, .and :: rest)) :
    outcome (conjuncts ss) =
      (outcome (conjuncts rest)).map fun p => ((e, p.1.1 :: p.1.2), p.2) := by
  rw [outcome_conjuncts, h]

theorem outcome_disjuncts_error (h : outcome (conjuncts ss) = .error why) :
    outcome (disjuncts ss) = .error why := by
  rw [outcome_disjuncts, h]

theorem outcome_disjuncts_last (h : outcome (conjuncts ss) = .ok (es, rest))
    (hor : rest.head? ≠ some .or) :
    outcome (disjuncts ss) = .ok ((Expr.conjoin es.1 es.2, []), rest) := by
  rw [outcome_disjuncts, h]
  cases rest with
  | nil => rfl
  | cons s rest =>
    cases s with
    | or => simp at hor
    | _ => rfl

theorem outcome_disjuncts_or (h : outcome (conjuncts ss) = .ok (es, .or :: rest)) :
    outcome (disjuncts ss) =
      (outcome (disjuncts rest)).map fun p =>
        ((Expr.conjoin es.1 es.2, p.1.1 :: p.1.2), p.2) := by
  rw [outcome_disjuncts, h]

/-! ## The symbols of a tree are read -/

mutual

-- by recursion on the tree; a row goes on as long as its operator follows, so it has to end
-- where this operator does not
theorem outcome_disjuncts_symbols : ∀ (d : Disjunction) (rest : List Symbol),
    ¬ NegatesTwice d.symbols → rest.head? ≠ some .and → rest.head? ≠ some .or →
      outcome (disjuncts (d.symbols ++ rest)) = .ok (d.operands, rest)
  | .last c, rest, hsingle, hand, hor =>
    outcome_disjuncts_last (outcome_conjuncts_symbols c rest hsingle hand) hor
  | .or c d, rest, hsingle, hand, hor => by
    rw [Disjunction.symbols, negatesTwice_append_cons (by simp), not_or] at hsingle
    have hfirst := outcome_conjuncts_symbols c (.or :: (d.symbols ++ rest)) hsingle.1 (by simp)
    have hmore := outcome_disjuncts_symbols d rest hsingle.2 hand hor
    rw [Disjunction.symbols, List.append_assoc, List.cons_append, outcome_disjuncts_or hfirst,
      hmore]
    rfl

theorem outcome_conjuncts_symbols : ∀ (c : Conjunction) (rest : List Symbol),
    ¬ NegatesTwice c.symbols → rest.head? ≠ some .and →
      outcome (conjuncts (c.symbols ++ rest)) = .ok (c.operands, rest)
  | .last u, rest, hsingle, hand =>
    outcome_conjuncts_last (outcome_operand_symbols u rest hsingle) hand
  | .and u c, rest, hsingle, hand => by
    rw [Conjunction.symbols, negatesTwice_append_cons (by simp), not_or] at hsingle
    have hfirst := outcome_operand_symbols u (.and :: (c.symbols ++ rest)) hsingle.1
    have hmore := outcome_conjuncts_symbols c rest hsingle.2 hand
    rw [Conjunction.symbols, List.append_assoc, List.cons_append, outcome_conjuncts_and hfirst,
      hmore]
    rfl

theorem outcome_operand_symbols : ∀ (u : Operand) (rest : List Symbol),
    ¬ NegatesTwice u.symbols → outcome (operand (u.symbols ++ rest)) = .ok (u.formula, rest)
  | .tag name, rest, _ => outcome_tag name rest
  | .not u, rest, hsingle => by
    rw [Operand.symbols, negatesTwice_cons, not_or] at hsingle
    have hhead : (u.symbols ++ rest).head? ≠ some .not := by
      rw [List.head?_append_of_ne_nil _ u.symbols_ne_nil]
      exact fun h => hsingle.1 ⟨rfl, h⟩
    rw [Operand.symbols, List.cons_append, outcome_not hhead,
      outcome_operand_symbols u rest hsingle.2]
    rfl
  | .group d, rest, hsingle => by
    rw [Operand.symbols, negatesTwice_cons_of_ne (by simp),
      negatesTwice_append_cons (by simp), not_or] at hsingle
    rw [Operand.symbols, List.cons_append, List.append_assoc, outcome_group,
      outcome_disjuncts_symbols d _ hsingle.1 (by simp) (by simp)]
    rfl

end

/-! ## Adjacent negations in a tree are found -/

/-- Whether a reader stopped at two negations in a row. -/
def Refuses {α : Type} (r : Except Fault α) : Prop :=
  ∃ term, r = .error (.doubleNegation term)

theorem Refuses.map {α β : Type} {r : Except Fault α} (f : α → β) (h : Refuses r) :
    Refuses (r.map f) := by
  obtain ⟨term, rfl⟩ := h
  exact ⟨term, rfl⟩

theorem Refuses.conjuncts_of_operand (h : Refuses (outcome (operand ss))) :
    Refuses (outcome (conjuncts ss)) := by
  obtain ⟨term, hterm⟩ := h
  exact ⟨term, outcome_conjuncts_error hterm⟩

theorem Refuses.disjuncts_of_conjuncts (h : Refuses (outcome (conjuncts ss))) :
    Refuses (outcome (disjuncts ss)) := by
  obtain ⟨term, hterm⟩ := h
  exact ⟨term, outcome_disjuncts_error hterm⟩

theorem Refuses.group_of_disjuncts (h : Refuses (outcome (disjuncts rest))) :
    Refuses (outcome (operand (.lparen :: rest))) := by
  obtain ⟨term, hterm⟩ := h
  exact ⟨term, by rw [outcome_group, hterm]⟩

mutual

theorem refuses_disjuncts : ∀ (d : Disjunction) (rest : List Symbol),
    NegatesTwice d.symbols → Refuses (outcome (disjuncts (d.symbols ++ rest)))
  | .last c, rest, htwice => (refuses_conjuncts c rest htwice).disjuncts_of_conjuncts
  | .or c d, rest, htwice => by
    rw [Disjunction.symbols, negatesTwice_append_cons (by simp)] at htwice
    rw [Disjunction.symbols, List.append_assoc, List.cons_append]
    by_cases hfirst : NegatesTwice c.symbols
    · exact (refuses_conjuncts c _ hfirst).disjuncts_of_conjuncts
    · rw [outcome_disjuncts_or (outcome_conjuncts_symbols c _ hfirst (by simp))]
      exact (refuses_disjuncts d rest (htwice.resolve_left hfirst)).map _

theorem refuses_conjuncts : ∀ (c : Conjunction) (rest : List Symbol),
    NegatesTwice c.symbols → Refuses (outcome (conjuncts (c.symbols ++ rest)))
  | .last u, rest, htwice => (refuses_operand u rest htwice).conjuncts_of_operand
  | .and u c, rest, htwice => by
    rw [Conjunction.symbols, negatesTwice_append_cons (by simp)] at htwice
    rw [Conjunction.symbols, List.append_assoc, List.cons_append]
    by_cases hfirst : NegatesTwice u.symbols
    · exact (refuses_operand u _ hfirst).conjuncts_of_operand
    · rw [outcome_conjuncts_and (outcome_operand_symbols u _ hfirst)]
      exact (refuses_conjuncts c rest (htwice.resolve_left hfirst)).map _

theorem refuses_operand : ∀ (u : Operand) (rest : List Symbol),
    NegatesTwice u.symbols → Refuses (outcome (operand (u.symbols ++ rest)))
  | .tag name, rest, htwice => by
    rw [Operand.symbols, negatesTwice_cons_of_ne (by simp)] at htwice
    exact absurd htwice not_negatesTwice_nil
  | .not u, rest, htwice => by
    rw [Operand.symbols, negatesTwice_cons] at htwice
    rw [Operand.symbols, List.cons_append]
    by_cases hhead : u.symbols.head? = some .not
    · -- the two negations are the first two symbols
      obtain ⟨v, rfl⟩ := Operand.exists_of_head?_not hhead
      exact ⟨_, outcome_not_not (v.symbols ++ rest)⟩
    · have htail := htwice.resolve_left fun h => hhead h.2
      rw [outcome_not (by rwa [List.head?_append_of_ne_nil _ u.symbols_ne_nil])]
      exact (refuses_operand u rest htail).map _
  | .group d, rest, htwice => by
    rw [Operand.symbols, negatesTwice_cons_of_ne (by simp),
      negatesTwice_append_cons (by simp)] at htwice
    have htail := htwice.resolve_right not_negatesTwice_nil
    rw [Operand.symbols, List.cons_append, List.append_assoc]
    exact (refuses_disjuncts d _ htail).group_of_disjuncts

end

/-! ## What is read comes from a tree -/

/-- An answer that a reader may give at `ss`: what the tree of some symbols at the front amounts to,
and a double negation only if there is one. -/
def Sound {α τ : Type} (yield : τ → List Symbol) (amount : τ → α) (ss : List Symbol) :
    Except Fault (α × List Symbol) → Prop
  | .ok (a, rest) => ∃ t, amount t = a ∧ ss = yield t ++ rest
  | .error (.doubleNegation _) => NegatesTwice ss
  | .error (.malformed _) => True

theorem Sound.error {α τ α' τ' : Type} {yield : τ → List Symbol} {amount : τ → α}
    {yield' : τ' → List Symbol} {amount' : τ' → α'}
    (h : Sound yield amount rest (.error why)) (hsuffix : rest <:+ ss) :
    Sound yield' amount' ss (.error why) := by
  cases why with
  | malformed reason => trivial
  | doubleNegation term => exact NegatesTwice.of_suffix h hsuffix

theorem Sound.map {α τ α' τ' : Type} {yield : τ → List Symbol} {amount : τ → α}
    {yield' : τ' → List Symbol} {amount' : τ' → α'} {r : Except Fault (α × List Symbol)}
    (h : Sound yield amount rest r) (read : List Symbol) (f : α → α') (g : τ → τ')
    (hamount : ∀ t, amount' (g t) = f (amount t)) (hyield : ∀ t, yield' (g t) = read ++ yield t) :
    Sound yield' amount' (read ++ rest) (r.map fun p => (f p.1, p.2)) := by
  cases r with
  | error why => exact h.error (List.suffix_append read rest)
  | ok p =>
    obtain ⟨t, ht, hsplit⟩ := h
    refine ⟨g t, ?_, ?_⟩
    · rw [hamount, ht]
    · rw [hyield, hsplit, List.append_assoc]

mutual

-- by recursion on the number of symbols, as no tree is given: what stands behind an operator or
-- a parenthesis is shorter
theorem sound_disjuncts (ss : List Symbol) :
    Sound Disjunction.symbols Disjunction.operands ss (outcome (disjuncts ss)) := by
  have hfirst := sound_conjuncts ss
  cases hread : outcome (conjuncts ss) with
  | error why =>
    rw [hread] at hfirst
    rw [outcome_disjuncts_error hread]
    exact hfirst.error List.suffix_rfl
  | ok p =>
    obtain ⟨es, rest⟩ := p
    rw [hread] at hfirst
    obtain ⟨c, hc, hss⟩ := hfirst
    by_cases hor : rest.head? = some .or
    · obtain ⟨more, rfl⟩ : ∃ more, rest = .or :: more := List.head?_eq_some_iff.1 hor
      have hlt : more.length < ss.length := by
        rw [hss, List.length_append, List.length_cons]
        omega
      rw [outcome_disjuncts_or hread, hss, List.append_cons, ← hc]
      refine (sound_disjuncts more).map (c.symbols ++ [.or])
        (fun es => (Expr.conjoin c.operands.1 c.operands.2, es.1 :: es.2)) (Disjunction.or c) ?_ ?_
      · intro d
        rfl
      · intro d
        rw [Disjunction.symbols, List.append_cons]
    · rw [outcome_disjuncts_last hread hor]
      exact ⟨.last c, by rw [Disjunction.operands, hc], hss⟩
termination_by (ss.length, 2)

theorem sound_conjuncts (ss : List Symbol) :
    Sound Conjunction.symbols Conjunction.operands ss (outcome (conjuncts ss)) := by
  have hfirst := sound_operand ss
  cases hread : outcome (operand ss) with
  | error why =>
    rw [hread] at hfirst
    rw [outcome_conjuncts_error hread]
    exact hfirst.error List.suffix_rfl
  | ok p =>
    obtain ⟨e, rest⟩ := p
    rw [hread] at hfirst
    obtain ⟨u, hu, hss⟩ := hfirst
    by_cases hand : rest.head? = some .and
    · obtain ⟨more, rfl⟩ : ∃ more, rest = .and :: more := List.head?_eq_some_iff.1 hand
      have hlt : more.length < ss.length := by
        rw [hss, List.length_append, List.length_cons]
        omega
      rw [outcome_conjuncts_and hread, hss, List.append_cons, ← hu]
      refine (sound_conjuncts more).map (u.symbols ++ [.and])
        (fun es => (u.formula, es.1 :: es.2)) (Conjunction.and u) ?_ ?_
      · intro c
        rfl
      · intro c
        rw [Conjunction.symbols, List.append_cons]
    · rw [outcome_conjuncts_last hread hand]
      exact ⟨.last u, by rw [Conjunction.operands, hu], hss⟩
termination_by (ss.length, 1)

theorem sound_operand : ∀ ss : List Symbol,
    Sound Operand.symbols Operand.formula ss (outcome (operand ss))
  | [] => by
    rw [operand]
    trivial
  | .tag name :: rest => by
    rw [outcome_tag]
    exact ⟨.tag name, rfl, rfl⟩
  | .not :: rest => by
    by_cases hhead : rest.head? = some .not
    · obtain ⟨more, rfl⟩ : ∃ more, rest = .not :: more := List.head?_eq_some_iff.1 hhead
      rw [outcome_not_not]
      exact negatesTwice_cons.2 (.inl ⟨rfl, rfl⟩)
    · rw [outcome_not hhead]
      refine (sound_operand rest).map [.not] Expr.not Operand.not ?_ ?_
      · intro u
        rfl
      · intro u
        rfl
  | .lparen :: rest => by
    have hinner := sound_disjuncts rest
    rw [outcome_group]
    cases hread : outcome (disjuncts rest) with
    | error why =>
      rw [hread] at hinner
      exact hinner.error (List.suffix_cons _ rest)
    | ok p =>
      obtain ⟨es, after⟩ := p
      rw [hread] at hinner
      obtain ⟨d, rfl, hsplit⟩ := hinner
      match after with
      | [] => trivial
      | .rparen :: after => exact ⟨.group d, rfl, by simp [Operand.symbols, hsplit]⟩
      | .and :: _ | .or :: _ | .not :: _ | .lparen :: _ | .tag _ :: _ => trivial
  | .and :: rest | .or :: rest | .rparen :: rest => by
    rw [operand]
    · trivial
    all_goals simp
termination_by ss => (ss.length, 0)

end

/-! ## Formulas -/

theorem formula_eq (ss : List Symbol) :
    formula ss =
      match outcome (disjuncts ss) with
      | .error why => .error why
      | .ok (es, []) => .ok (Expr.disjoin es.1 es.2)
      | .ok (_, s :: _) => .error (.malformed (.unexpectedSymbol s)) := by
  rw [formula]
  cases disjuncts ss with
  | error why => rfl
  | ok read =>
    obtain ⟨es, rest, hshorter⟩ := read
    cases rest with
    | nil => rfl
    | cons s rest => rfl

theorem formula_symbols {d : Disjunction} (h : ¬ NegatesTwice d.symbols) :
    formula d.symbols = .ok d.formula := by
  have hread := outcome_disjuncts_symbols d [] h (by simp) (by simp)
  rw [List.append_nil] at hread
  rw [formula_eq, hread]
  rfl

theorem refuses_formula {d : Disjunction} (h : NegatesTwice d.symbols) :
    Refuses (formula d.symbols) := by
  obtain ⟨term, hterm⟩ := refuses_disjuncts d [] h
  rw [List.append_nil] at hterm
  exact ⟨term, by rw [formula_eq, hterm]⟩

/-- A formula is read from the symbols of a tree, and is what this tree amounts to. -/
theorem exists_of_formula_eq_ok (h : formula ss = .ok e) :
    ∃ d : Disjunction, d.formula = e ∧ ss = d.symbols := by
  have hsound := sound_disjuncts ss
  rw [formula_eq] at h
  cases hread : outcome (disjuncts ss) with
  | error why =>
    rw [hread] at h
    contradiction
  | ok p =>
    obtain ⟨es, rest⟩ := p
    rw [hread] at h hsound
    cases rest with
    | cons s rest => contradiction
    | nil =>
      obtain ⟨d, rfl, hss⟩ := hsound
      exact ⟨d, Except.ok.inj h, by rw [hss, List.append_nil]⟩

theorem negatesTwice_of_refuses_formula (h : Refuses (formula ss)) : NegatesTwice ss := by
  obtain ⟨term, hterm⟩ := h
  have hsound := sound_disjuncts ss
  rw [formula_eq] at hterm
  cases hread : outcome (disjuncts ss) with
  | error why =>
    rw [hread] at hterm hsound
    obtain rfl := Except.error.inj hterm
    exact hsound
  | ok p =>
    obtain ⟨es, rest⟩ := p
    rw [hread] at hterm
    cases rest with
    | nil => contradiction
    | cons s rest => cases hterm

/-! ## Comments -/

variable {comment : String} {body : List Char}

def formulaText (body : List Char) : List Char :=
  before ['/', '*'] (before ['/', '/'] body)

def readAs (line : Option Nat) (r : Except Fault Expr) : Except InvalidTerm (Option Expr) :=
  match r with
  | .ok e => .ok (some e)
  | .error (.malformed _) => .ok none
  | .error (.doubleNegation operand) => .error ⟨"!!" ++ operand, line⟩

theorem goBuildFormula_eq (hbody : goBuildBody? (trim comment.toList) = some body) :
    goBuildFormula comment.toList = trimRight (formulaText body) := by
  rw [goBuildFormula, hbody]
  rfl

theorem readGoBuild_of_spelled (line : Option Nat)
    (hbody : goBuildBody? (trim comment.toList) = some body) (h : Spelled (formulaText body) ss) :
    readGoBuild comment line = readAs line (formula ss) := by
  have hsymbols := symbols_of_spelled h
  by_cases hempty : trimRight (formulaText body) = []
  · have hparse : parseGoBuild comment = .ok none := by
      rw [parseGoBuild, goBuildFormula_eq hbody, hempty]
      rfl
    have hformula : formula [] = .error (.malformed .unexpectedEnd) := by
      rw [formula_eq, outcome_disjuncts, outcome_conjuncts, operand]
      rfl
    rw [hempty, symbols_nil] at hsymbols
    obtain rfl := Except.ok.inj hsymbols
    rw [readGoBuild, hparse, hformula]
    rfl
  · have hparse : parseGoBuild comment = (formula ss).map some := by
      rw [parseGoBuild, goBuildFormula_eq hbody, hsymbols]
      exact if_neg (by simpa using hempty)
    rw [readGoBuild, hparse]
    cases formula ss with
    | ok e => rfl
    | error why => cases why <;> rfl

theorem readGoBuild_of_not_spelled (line : Option Nat)
    (hbody : goBuildBody? (trim comment.toList) = some body)
    (h : ∀ ss, ¬ Spelled (formulaText body) ss) : readGoBuild comment line = .ok none := by
  cases hsymbols : symbols (trimRight (formulaText body)) with
  | ok ss => exact absurd (symbols_eq_ok_iff.1 hsymbols) (h ss)
  | error why =>
    rw [readGoBuild, parseGoBuild, goBuildFormula_eq hbody, hsymbols]
    cases (trimRight (formulaText body)).isEmpty <;> rfl

theorem readGoBuild_of_no_body (line : Option Nat)
    (hbody : goBuildBody? (trim comment.toList) = none) : readGoBuild comment line = .ok none := by
  rw [readGoBuild, parseGoBuild, goBuildFormula, hbody]
  rfl

/-- A `go:build` comment is read by the grammar: what spells a tree is a formula of its value,
unless two negations are adjacent, and nothing else is a formula. -/
theorem readGoBuild_grammar (line : Option Nat)
    (hbody : goBuildBody? (trim comment.toList) = some body) :
    (∀ d : Disjunction, Spelled (formulaText body) d.symbols → ¬ NegatesTwice d.symbols →
        ∃ e, readGoBuild comment line = .ok (some e) ∧ ∀ tags, e.eval tags = d.value tags) ∧
      (∀ d : Disjunction, Spelled (formulaText body) d.symbols → NegatesTwice d.symbols →
        ∃ operand, readGoBuild comment line = .error ⟨"!!" ++ operand, line⟩) ∧
      ((¬ ∃ d : Disjunction, Spelled (formulaText body) d.symbols) →
        readGoBuild comment line = .ok none ∨
          ∃ ss operand, Spelled (formulaText body) ss ∧ NegatesTwice ss ∧
            readGoBuild comment line = .error ⟨"!!" ++ operand, line⟩) := by
  refine ⟨?_, ?_, ?_⟩
  · intro d hspelled hsingle
    refine ⟨d.formula, ?_, fun tags => d.eval_formula tags⟩
    rw [readGoBuild_of_spelled line hbody hspelled, formula_symbols hsingle]
    rfl
  · intro d hspelled htwice
    obtain ⟨operand, hoperand⟩ := refuses_formula htwice
    refine ⟨operand, ?_⟩
    rw [readGoBuild_of_spelled line hbody hspelled, hoperand]
    rfl
  · intro hnone
    by_cases hspelled : ∃ ss, Spelled (formulaText body) ss
    · obtain ⟨ss, hss⟩ := hspelled
      rw [readGoBuild_of_spelled line hbody hss]
      cases hformula : formula ss with
      | ok e =>
        obtain ⟨d, -, rfl⟩ := exists_of_formula_eq_ok hformula
        exact absurd ⟨d, hss⟩ hnone
      | error why =>
        cases why with
        | malformed reason => exact .inl rfl
        | doubleNegation operand =>
          have htwice := negatesTwice_of_refuses_formula ⟨operand, hformula⟩
          exact .inr ⟨ss, operand, hss, htwice, rfl⟩
    · exact .inl (readGoBuild_of_not_spelled line hbody (not_exists.1 hspelled))

/-- A negation binds tighter than a disjunction, and a comment behind the formula is none of it. -/
theorem readGoBuild_grammar_negation :
    ∃ e, readGoBuild "//go:build !a || b // c" (some 3) = .ok (some e) ∧
      ∀ tags, e.eval tags = (!decide ("a" ∈ tags) || decide ("b" ∈ tags)) := by
  have htag : IsTag ['a'] ∧ IsTag ['b'] := by simp [IsTag, isTagChar, isWord]
  have hb : Spelled ['b', ' '] [.tag "b"] := .tag htag.2 rfl (.blank rfl .nil)
  have hor : Spelled [' ', '|', '|', ' ', 'b', ' '] [.or, .tag "b"] :=
    .blank rfl (.mark (s := .or) rfl (.blank rfl hb))
  have ha : Spelled ['a', ' ', '|', '|', ' ', 'b', ' '] [.tag "a", .or, .tag "b"] :=
    .tag htag.1 rfl hor
  have hall : Spelled [' ', '!', 'a', ' ', '|', '|', ' ', 'b', ' ']
      [.not, .tag "a", .or, .tag "b"] :=
    .blank rfl (.mark (s := .not) rfl ha)
  have hbody : goBuildBody? (trim "//go:build !a || b // c".toList) =
      some [' ', '!', 'a', ' ', '|', '|', ' ', 'b', ' ', '/', '/', ' ', 'c'] := by
    decide
  exact (readGoBuild_grammar (some 3) hbody).1
    (.or (.last (.not (.tag "a"))) (.last (.last (.tag "b")))) hall (by decide)

end ImportSurvey.Constraint
