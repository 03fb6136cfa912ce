import ImportSurvey.Proofs.Constraint.Obtained
import ImportSurvey.Proofs.Text.Cut
/-!
# The written form is read back

The written form of a formula spells the symbols of a tree, in which no two negations are adjacent.
Read behind `go:build` it gives the formula of this tree: the one that was written, with nested
operators of one kind dissolved.
-/

namespace ImportSurvey.Constraint

open Text Source

variable {e : Expr} {es fs : List Expr} {s : Symbol} {ss ts : List Symbol} {cs xs ys : List Char}
variable {text : String}

/-! ## Spellings in front of others -/

/-- A text that spells some symbols in front of any other, unless the other text continues a tag. -/
def SpellsAhead (xs : List Char) (ss : List Symbol) : Prop :=
  ∀ rest more, EndsTag rest → Spelled rest more → Spelled (xs ++ rest) (ss ++ more)

theorem SpellsAhead.spelled (h : SpellsAhead xs ss) : Spelled xs ss := by
  have hend := h [] [] rfl .nil
  rwa [List.append_nil, List.append_nil] at hend

theorem SpellsAhead.tag {name : String} (h : IsTag name.toList) :
    SpellsAhead name.toList [.tag name] := by
  intro rest more hends hmore
  have hspelled := Spelled.tag h hends hmore
  rwa [String.ofList_toList] at hspelled

theorem SpellsAhead.join (hx : SpellsAhead xs ss) (hy : SpellsAhead ys ts) (hs : s.isMark = true) :
    SpellsAhead (xs ++ ' ' :: (s.text.toList ++ ' ' :: ys)) (ss ++ s :: ts) := by
  intro rest more hends hmore
  have htail : Spelled (' ' :: (s.text.toList ++ ' ' :: (ys ++ rest))) (s :: (ts ++ more)) :=
    .blank rfl (.mark hs (.blank rfl (hy rest more hends hmore)))
  have hall := hx (' ' :: (s.text.toList ++ ' ' :: (ys ++ rest))) (s :: (ts ++ more)) rfl htail
  simpa using hall

theorem SpellsAhead.not (h : SpellsAhead xs ss) : SpellsAhead ('!' :: xs) (.not :: ss) := by
  intro rest more hends hmore
  exact .mark (s := .not) rfl (h rest more hends hmore)

theorem SpellsAhead.group (h : SpellsAhead xs ss) :
    SpellsAhead ('(' :: (xs ++ [')'])) (.lparen :: (ss ++ [.rparen])) := by
  intro rest more hends hmore
  have htail : Spelled (')' :: rest) (.rparen :: more) := .mark (s := .rparen) rfl hmore
  have hall : Spelled ('(' :: (xs ++ ')' :: rest)) (.lparen :: (ss ++ .rparen :: more)) :=
    .mark (s := .lparen) rfl (h _ _ rfl htail)
  simpa using hall

/-! ## Trees of written forms -/

def Conjunction.append : Conjunction → Conjunction → Conjunction
  | .last u, more => .and u more
  | .and u c, more => .and u (c.append more)

def Disjunction.append : Disjunction → Disjunction → Disjunction
  | .last c, more => .or c more
  | .or c d, more => .or c (d.append more)

theorem Conjunction.symbols_append (more c : Conjunction) :
    (c.append more).symbols = c.symbols ++ .and :: more.symbols := by
  cases c with
  | last u => rfl
  | and u c =>
    rw [Conjunction.append, Conjunction.symbols, Conjunction.symbols,
      Conjunction.symbols_append more c, List.append_assoc, List.cons_append]

theorem Disjunction.symbols_append (more d : Disjunction) :
    (d.append more).symbols = d.symbols ++ .or :: more.symbols := by
  cases d with
  | last c => rfl
  | or c d =>
    rw [Disjunction.append, Disjunction.symbols, Disjunction.symbols,
      Disjunction.symbols_append more d, List.append_assoc, List.cons_append]

def Conjunction.formulas (c : Conjunction) : List Expr :=
  c.operands.1 :: c.operands.2

def Disjunction.formulas (d : Disjunction) : List Expr :=
  d.operands.1 :: d.operands.2

theorem Conjunction.formulas_append (more c : Conjunction) :
    (c.append more).formulas = c.formulas ++ more.formulas := by
  cases c with
  | last u => rfl
  | and u c =>
    change u.formula :: (c.append more).formulas = u.formula :: (c.formulas ++ more.formulas)
    rw [Conjunction.formulas_append more c]

theorem Disjunction.formulas_append (more d : Disjunction) :
    (d.append more).formulas = d.formulas ++ more.formulas := by
  cases d with
  | last c => rfl
  | or c d =>
    change Expr.conjoin c.operands.1 c.operands.2 :: (d.append more).formulas =
      Expr.conjoin c.operands.1 c.operands.2 :: (d.formulas ++ more.formulas)
    rw [Disjunction.formulas_append more d]

/-- A text that spells some symbols, no two negations among them adjacent. -/
structure Writes (text : String) (ss : List Symbol) : Prop where
  spells : SpellsAhead text.toList ss
  single : ¬ NegatesTwice ss

def WritesOperand (text : String) (e : Expr) : Prop :=
  ∃ u : Operand, Writes text u.symbols ∧ u.formula = e

def WritesConjuncts (text : String) (es : List Expr) : Prop :=
  ∃ c : Conjunction, Writes text c.symbols ∧ c.formulas = es

def WritesDisjuncts (text : String) (es : List Expr) : Prop :=
  ∃ d : Disjunction, Writes text d.symbols ∧ d.formulas = es

def WritesFormula (text : String) (e : Expr) : Prop :=
  ∃ d : Disjunction, Writes text d.symbols ∧ d.formula = e

theorem Writes.join {text' : String} (h : Writes text ss) (h' : Writes text' ts)
    (hs : s.isMark = true) (hnot : s ≠ .not) :
    Writes (text ++ (" " ++ s.text ++ " ") ++ text') (ss ++ s :: ts) where
  spells := by
    have hjoin := h.spells.join h'.spells hs
    simpa using hjoin
  single := by
    rw [negatesTwice_append_cons hnot, not_or]
    exact ⟨h.single, h'.single⟩

theorem Writes.group (h : Writes text ss) :
    Writes ("(" ++ text ++ ")") (.lparen :: (ss ++ [.rparen])) where
  spells := by
    have hgroup := h.spells.group
    simpa using hgroup
  single := by
    rw [negatesTwice_cons_of_ne (by simp), negatesTwice_append_cons (by simp), not_or]
    exact ⟨h.single, not_negatesTwice_nil⟩

theorem Writes.not (h : Writes text ss) (hhead : ss.head? ≠ some .not) :
    Writes ("!" ++ text) (.not :: ss) where
  spells := by
    have hnot := h.spells.not
    simpa using hnot
  single := by
    rw [negatesTwice_cons, not_or, not_and]
    exact ⟨fun _ => hhead, h.single⟩

theorem Writes.tag {name : String} (h : IsTag name.toList) : Writes name [.tag name] where
  spells := .tag h
  single := by
    rw [negatesTwice_cons_of_ne (by simp)]
    exact not_negatesTwice_nil

theorem WritesOperand.tag {name : String} (h : IsTag name.toList) :
    WritesOperand name (.tag name) :=
  ⟨.tag name, .tag h, rfl⟩

theorem WritesOperand.conjuncts (h : WritesOperand text e) : WritesConjuncts text [e] := by
  obtain ⟨u, hu, rfl⟩ := h
  exact ⟨.last u, hu, rfl⟩

theorem WritesConjuncts.disjuncts (h : WritesConjuncts text (e :: es)) :
    WritesDisjuncts text [Expr.conjoin e es] := by
  obtain ⟨c, hc, hes⟩ := h
  obtain ⟨rfl, rfl⟩ := List.cons.inj hes
  exact ⟨.last c, hc, rfl⟩

theorem WritesDisjuncts.formula (h : WritesDisjuncts text (e :: es)) :
    WritesFormula text (Expr.disjoin e es) := by
  obtain ⟨d, hd, hes⟩ := h
  obtain ⟨rfl, rfl⟩ := List.cons.inj hes
  exact ⟨d, hd, rfl⟩

theorem WritesFormula.operand (h : WritesFormula text e) :
    WritesOperand ("(" ++ text ++ ")") e := by
  obtain ⟨d, hd, rfl⟩ := h
  exact ⟨.group d, hd.group, rfl⟩

theorem WritesFormula.not (h : WritesFormula text e) :
    WritesOperand ("!" ++ ("(" ++ text ++ ")")) (.not e) := by
  obtain ⟨d, hd, rfl⟩ := h
  exact ⟨.not (.group d), hd.group.not (by simp), rfl⟩

theorem WritesConjuncts.append {text' : String} (h : WritesConjuncts text es)
    (h' : WritesConjuncts text' fs) : WritesConjuncts (text ++ " && " ++ text') (es ++ fs) := by
  obtain ⟨c, hc, rfl⟩ := h
  obtain ⟨c', hc', rfl⟩ := h'
  refine ⟨c.append c', ?_, Conjunction.formulas_append c' c⟩
  rw [Conjunction.symbols_append]
  exact Writes.join (s := .and) hc hc' rfl (by simp)

theorem WritesDisjuncts.append {text' : String} (h : WritesDisjuncts text es)
    (h' : WritesDisjuncts text' fs) : WritesDisjuncts (text ++ " || " ++ text') (es ++ fs) := by
  obtain ⟨d, hd, rfl⟩ := h
  obtain ⟨d', hd', rfl⟩ := h'
  refine ⟨d.append d', ?_, Disjunction.formulas_append d' d⟩
  rw [Disjunction.symbols_append]
  exact Writes.join (s := .or) hd hd' rfl (by simp)

theorem WritesConjuncts.and (h : WritesConjuncts text es) (htwo : 2 ≤ es.length) :
    WritesFormula text (.and es) := by
  match es, htwo with
  | e :: f :: es, _ => exact h.disjuncts.formula

theorem WritesDisjuncts.or (h : WritesDisjuncts text es) (htwo : 2 ≤ es.length) :
    WritesFormula text (.or es) := by
  match es, htwo with
  | e :: f :: es, _ => exact h.formula

/-- What holds of each text and its formulas, and of any two in a row, holds of all in a row. -/
theorem holds_intercalate {P : String → List Expr → Prop} {sep : String} {f : Expr → String}
    {g : Expr → List Expr}
    (happend : ∀ {x y as bs}, P x as → P y bs → P (x ++ sep ++ y) (as ++ bs))
    (hne : es ≠ []) (h : ∀ e ∈ es, P (f e) (g e)) :
    P (sep.intercalate (es.map f)) (es.flatMap g) := by
  induction es with
  | nil => contradiction
  | cons e es ih =>
    have hfirst := h e List.mem_cons_self
    rw [List.map_cons, List.flatMap_cons]
    by_cases hes : es = []
    · rw [hes, List.map_nil, List.flatMap_nil, String.intercalate_singleton, List.append_nil]
      exact hfirst
    · have hmore := ih hes fun f hf => h f (List.mem_cons_of_mem e hf)
      rw [String.intercalate_cons_of_ne_nil (by simpa using hes)]
      exact happend hfirst hmore

theorem writesConjuncts_intercalate (hne : es ≠ [])
    (h : ∀ e ∈ es, WritesConjuncts (Expr.parenthesizedIf e.isOr e.text) e.flatten.conjunctsOf) :
    WritesConjuncts (" && ".intercalate (Expr.conjunctTexts es)) (Expr.flattenConjuncts es) := by
  rw [Expr.conjunctTexts_eq_map, Expr.flattenConjuncts_eq_flatMap]
  exact holds_intercalate WritesConjuncts.append hne h

theorem writesDisjuncts_intercalate (hne : es ≠ [])
    (h : ∀ e ∈ es, WritesDisjuncts (Expr.parenthesizedIf e.isAnd e.text) e.flatten.disjunctsOf) :
    WritesDisjuncts (" || ".intercalate (Expr.disjunctTexts es)) (Expr.flattenDisjuncts es) := by
  rw [Expr.disjunctTexts_eq_map, Expr.flattenDisjuncts_eq_flatMap]
  exact holds_intercalate WritesDisjuncts.append hne h

/-- A formula is written as itself and, with parentheses where they are due, as an operand of each
kind. -/
structure Written (e : Expr) : Prop where
  formula : WritesFormula e.text e.flatten
  negated : WritesOperand ("!" ++ Expr.parenthesizedIf (!e.isTag) e.text) (.not e.flatten)
  conjuncts : WritesConjuncts (Expr.parenthesizedIf e.isOr e.text) e.flatten.conjunctsOf
  disjuncts : WritesDisjuncts (Expr.parenthesizedIf e.isAnd e.text) e.flatten.disjunctsOf

theorem Expr.Proper.written (h : e.Proper) : Written e := by
  induction h with
  | @tag name hname =>
    have htag := WritesOperand.tag hname
    have hnot : WritesOperand ("!" ++ name) (.not (.tag name)) :=
      ⟨.not (.tag name), (Writes.tag hname).not (by simp), rfl⟩
    exact ⟨htag.conjuncts.disjuncts.formula, hnot, htag.conjuncts, htag.conjuncts.disjuncts⟩
  | not he ih =>
    have hnot := ih.negated
    have hformula := hnot.conjuncts.disjuncts.formula
    exact ⟨hformula, hformula.not, hnot.conjuncts, hnot.conjuncts.disjuncts⟩
  | @and es htwo hes ih =>
    have hne : es ≠ [] := by
      rintro rfl
      contradiction
    have hconjuncts := writesConjuncts_intercalate hne fun e he => (ih e he).conjuncts
    have hformula := hconjuncts.and (Nat.le_trans htwo (Expr.length_le_flattenConjuncts hes))
    exact ⟨hformula, hformula.not, hconjuncts, hformula.operand.conjuncts.disjuncts⟩
  | @or es htwo hes ih =>
    have hne : es ≠ [] := by
      rintro rfl
      contradiction
    have hdisjuncts := writesDisjuncts_intercalate hne fun e he => (ih e he).disjuncts
    have hformula := hdisjuncts.or (Nat.le_trans htwo (Expr.length_le_flattenDisjuncts hes))
    exact ⟨hformula, hformula.not, hformula.operand.conjuncts, hdisjuncts⟩

/-! ## Reading what is written -/

/-- No symbol and no blank holds a slash, so no comment mark cuts a spelling short. -/
theorem Spelled.slash_not_mem (h : Spelled cs ss) : '/' ∉ cs := by
  induction h with
  | nil => simp
  | @blank c cs ss hc more ih =>
    have hne : '/' ≠ c := by
      rintro rfl
      contradiction
    exact List.not_mem_cons_of_ne_of_not_mem hne ih
  | @mark s cs ss hs more ih =>
    have hmark : '/' ∉ s.text.toList := by
      cases s with
      | tag name => contradiction
      | _ => decide
    rw [List.mem_append, not_or]
    exact ⟨hmark, ih⟩
  | tag hname hends more ih =>
    rw [List.mem_append, not_or]
    refine ⟨?_, ih⟩
    intro hmem
    have hslash := hname.2 '/' hmem
    contradiction

theorem goBuildBody?_append (text : String) :
    goBuildBody? (trim ("//go:build " ++ text).toList) = some (trimRight (' ' :: text.toList)) := by
  have hword : trimRight "//go:build".toList = "//go:build".toList := by
    decide
  have htrim : trim ("//go:build " ++ text).toList =
      "//go:build".toList ++ trimRight (' ' :: text.toList) := by
    rw [← trimRight_append hword, trim, String.toList_append]
    rfl
  rw [htrim, goBuildBody?, afterWord?, isPrefixOf?_eq_some.2 rfl, trimRight_cons (by decide)]
  split_ifs with hempty
  · rfl
  · rfl

/-- A comment that holds nothing but a spelling is read from its symbols. -/
theorem readGoBuild_spelled (line : Option Nat) (h : Spelled text.toList ss) :
    readGoBuild ("//go:build " ++ text) line = readAs line (formula ss) := by
  have hbody : Spelled (trimRight (' ' :: text.toList)) ss := (Spelled.blank rfl h).trimRight
  have hslash := hbody.slash_not_mem
  have htext : formulaText (trimRight (' ' :: text.toList)) = trimRight (' ' :: text.toList) := by
    rw [formulaText, before_of_not_mem hslash, before_of_not_mem hslash]
  apply readGoBuild_of_spelled line (goBuildBody?_append text)
  rwa [htext]

theorem WritesFormula.readGoBuild_eq (h : WritesFormula text e) (line : Option Nat) :
    readGoBuild ("//go:build " ++ text) line = .ok (some e) := by
  obtain ⟨d, hd, rfl⟩ := h
  rw [readGoBuild_spelled line hd.spells.spelled, formula_symbols hd.single]
  rfl

/-- A formula that was read is read again from its written form, with the same values and the same
written form. -/
theorem readGoBuild_text (line : Option Nat) (h : Obtained e) :
    ∃ e', readGoBuild ("//go:build " ++ e.text) line = .ok (some e') ∧
      (∀ tags, e'.eval tags = e.eval tags) ∧ e'.text = e.text := by
  have hproper := h.proper
  refine ⟨e.flatten, ?_, fun tags => Expr.eval_flatten tags e, hproper.text_flatten⟩
  exact hproper.written.formula.readGoBuild_eq line

/-- The parentheses around a conjunction in a conjunction are not written again. -/
theorem readGoBuild_text_nested :
    readGoBuild "//go:build (a && b) && c" none =
        .ok (some (.and [.and [.tag "a", .tag "b"], .tag "c"])) ∧
      ∃ e', readGoBuild "//go:build a && b && c" (some 1) = .ok (some e') ∧
        (∀ tags, e'.eval tags = Expr.eval tags (.and [.and [.tag "a", .tag "b"], .tag "c"])) ∧
        e'.text = "a && b && c" := by
  have ha : WritesConjuncts "a" [.tag "a"] :=
    (WritesOperand.tag (by simp [IsTag, isTagChar, isWord])).conjuncts
  have hb : WritesConjuncts "b" [.tag "b"] :=
    (WritesOperand.tag (by simp [IsTag, isTagChar, isWord])).conjuncts
  have hc : WritesConjuncts "c" [.tag "c"] :=
    (WritesOperand.tag (by simp [IsTag, isTagChar, isWord])).conjuncts
  have hab : WritesConjuncts "(a && b)" [.and [.tag "a", .tag "b"]] :=
    ((ha.append hb).and (by simp)).operand.conjuncts
  have hread : readGoBuild "//go:build (a && b) && c" none =
      .ok (some (.and [.and [.tag "a", .tag "b"], .tag "c"])) :=
    ((hab.append hc).and (by simp)).readGoBuild_eq none
  have htext : (Expr.and [.and [.tag "a", .tag "b"], .tag "c"]).text = "a && b && c" := by
    decide
  have hagain := readGoBuild_text (some 1) (.goBuild hread)
  rw [htext] at hagain
  exact ⟨hread, hagain⟩

end ImportSurvey.Constraint
