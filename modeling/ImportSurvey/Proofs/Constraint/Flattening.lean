import ImportSurvey.Proofs.Constraint.Spelling
/-!
# Nested operators of one kind

The written form does not tell whether a conjunction stands in a conjunction, or a disjunction in a
disjunction. With such operands dissolved a formula keeps its values and its written form.
-/

namespace ImportSurvey.Constraint.Expr

variable {e : Expr} {es : List Expr}

/-- A formula that can be written: its tags consist of tag characters, and its conjunctions and
disjunctions have two operands or more. -/
inductive Proper : Expr → Prop
  | tag {name : String} (hname : IsTag name.toList) : Proper (tag name)
  | not {e : Expr} (he : Proper e) : Proper (not e)
  | and {es : List Expr} (htwo : 2 ≤ es.length) (hes : ∀ e ∈ es, Proper e) : Proper (and es)
  | or {es : List Expr} (htwo : 2 ≤ es.length) (hes : ∀ e ∈ es, Proper e) : Proper (or es)

/-- What a formula contributes to the operands of a conjunction. -/
def conjunctsOf : Expr → List Expr
  | and es => es
  | e => [e]

def disjunctsOf : Expr → List Expr
  | or es => es
  | e => [e]

mutual

def flatten : Expr → Expr
  | tag name => tag name
  | not operand => not (flatten operand)
  | and operands => and (flattenConjuncts operands)
  | or operands => or (flattenDisjuncts operands)

def flattenConjuncts : List Expr → List Expr
  | [] => []
  | e :: es => conjunctsOf (flatten e) ++ flattenConjuncts es

def flattenDisjuncts : List Expr → List Expr
  | [] => []
  | e :: es => disjunctsOf (flatten e) ++ flattenDisjuncts es

end

@[simp] theorem isTag_flatten (e : Expr) : (flatten e).isTag = e.isTag := by
  cases e <;> rfl

@[simp] theorem isAnd_flatten (e : Expr) : (flatten e).isAnd = e.isAnd := by
  cases e <;> rfl

@[simp] theorem isOr_flatten (e : Expr) : (flatten e).isOr = e.isOr := by
  cases e <;> rfl

theorem flattenConjuncts_eq_flatMap (es : List Expr) :
    flattenConjuncts es = es.flatMap fun e => conjunctsOf (flatten e) := by
  induction es with
  | nil => rfl
  | cons e es ih => rw [flattenConjuncts, ih, List.flatMap_cons]

theorem flattenDisjuncts_eq_flatMap (es : List Expr) :
    flattenDisjuncts es = es.flatMap fun e => disjunctsOf (flatten e) := by
  induction es with
  | nil => rfl
  | cons e es ih => rw [flattenDisjuncts, ih, List.flatMap_cons]

theorem conjunctTexts_eq_map (es : List Expr) :
    conjunctTexts es = es.map fun e => parenthesizedIf e.isOr (text e) := by
  induction es with
  | nil => rfl
  | cons e es ih => rw [conjunctTexts, ih, List.map_cons]

theorem disjunctTexts_eq_map (es : List Expr) :
    disjunctTexts es = es.map fun e => parenthesizedIf e.isAnd (text e) := by
  induction es with
  | nil => rfl
  | cons e es ih => rw [disjunctTexts, ih, List.map_cons]

/-! ## Values -/

theorem evalAll_conjunctsOf (tags : NameSet) (e : Expr) :
    evalAll tags (conjunctsOf e) = eval tags e := by
  cases e with
  | and es => rfl
  | _ => exact Bool.and_true _

theorem evalAny_disjunctsOf (tags : NameSet) (e : Expr) :
    evalAny tags (disjunctsOf e) = eval tags e := by
  cases e with
  | or es => rfl
  | _ => exact Bool.or_false _

mutual

theorem eval_flatten (tags : NameSet) : ∀ e : Expr, eval tags (flatten e) = eval tags e
  | tag name => rfl
  | not e => by rw [flatten, eval, eval, eval_flatten tags e]
  | and es => by rw [flatten, eval, eval, evalAll_flattenConjuncts tags es]
  | or es => by rw [flatten, eval, eval, evalAny_flattenDisjuncts tags es]

theorem evalAll_flattenConjuncts (tags : NameSet) :
    ∀ es : List Expr, evalAll tags (flattenConjuncts es) = evalAll tags es
  | [] => rfl
  | e :: es => by
    rw [flattenConjuncts, evalAll_eq_all, List.all_append, ← evalAll_eq_all, ← evalAll_eq_all,
      evalAll_conjunctsOf, eval_flatten tags e, evalAll_flattenConjuncts tags es, evalAll]

theorem evalAny_flattenDisjuncts (tags : NameSet) :
    ∀ es : List Expr, evalAny tags (flattenDisjuncts es) = evalAny tags es
  | [] => rfl
  | e :: es => by
    rw [flattenDisjuncts, evalAny_eq_any, List.any_append, ← evalAny_eq_any, ← evalAny_eq_any,
      evalAny_disjunctsOf, eval_flatten tags e, evalAny_flattenDisjuncts tags es, evalAny]

end

/-! ## Number of operands -/

private theorem length_le_flatMap {α β : Type} {f : α → List β} {xs : List α}
    (h : ∀ x ∈ xs, f x ≠ []) :
    xs.length ≤ (xs.flatMap f).length := by
  induction xs with
  | nil => exact Nat.zero_le _
  | cons x xs ih =>
    have hfirst := List.length_pos_iff.2 (h x List.mem_cons_self)
    have hmore := ih fun y hy => h y (List.mem_cons_of_mem x hy)
    rw [List.flatMap_cons, List.length_append, List.length_cons]
    omega

theorem Proper.conjunctsOf_flatten_ne_nil (h : Proper e) : conjunctsOf (flatten e) ≠ [] := by
  induction h with
  | tag hname => exact List.cons_ne_nil _ _
  | not he ih => exact List.cons_ne_nil _ _
  | or htwo hes ih => exact List.cons_ne_nil _ _
  | and htwo hes ih =>
    have hle := length_le_flatMap ih
    rw [flatten, conjunctsOf, flattenConjuncts_eq_flatMap, ← List.length_pos_iff]
    omega

theorem Proper.disjunctsOf_flatten_ne_nil (h : Proper e) : disjunctsOf (flatten e) ≠ [] := by
  induction h with
  | tag hname => exact List.cons_ne_nil _ _
  | not he ih => exact List.cons_ne_nil _ _
  | and htwo hes ih => exact List.cons_ne_nil _ _
  | or htwo hes ih =>
    have hle := length_le_flatMap ih
    rw [flatten, disjunctsOf, flattenDisjuncts_eq_flatMap, ← List.length_pos_iff]
    omega

theorem length_le_flattenConjuncts (hes : ∀ e ∈ es, Proper e) :
    es.length ≤ (flattenConjuncts es).length := by
  rw [flattenConjuncts_eq_flatMap]
  exact length_le_flatMap fun e he => (hes e he).conjunctsOf_flatten_ne_nil

theorem length_le_flattenDisjuncts (hes : ∀ e ∈ es, Proper e) :
    es.length ≤ (flattenDisjuncts es).length := by
  rw [flattenDisjuncts_eq_flatMap]
  exact length_le_flatMap fun e he => (hes e he).disjunctsOf_flatten_ne_nil

/-! ## Written forms -/

private theorem intercalate_conjunctsOf (e : Expr) :
    " && ".intercalate (conjunctTexts (conjunctsOf e)) = parenthesizedIf e.isOr (text e) := by
  cases e with
  | and es => rfl
  | _ => exact String.intercalate_singleton

private theorem intercalate_disjunctsOf (e : Expr) :
    " || ".intercalate (disjunctTexts (disjunctsOf e)) = parenthesizedIf e.isAnd (text e) := by
  cases e with
  | or es => rfl
  | _ => exact String.intercalate_singleton

/-- Rows of texts with a separator between them all, and between the rows. -/
theorem intercalate_flatMap {α : Type} {sep : String} {f : α → List String} {g : α → String}
    {xs : List α} (hne : ∀ x ∈ xs, f x ≠ []) (h : ∀ x ∈ xs, sep.intercalate (f x) = g x) :
    sep.intercalate (xs.flatMap f) = sep.intercalate (xs.map g) := by
  induction xs with
  | nil => rfl
  | cons x xs ih =>
    have hfirst := h x List.mem_cons_self
    have hmore := ih (fun y hy => hne y (List.mem_cons_of_mem x hy))
      fun y hy => h y (List.mem_cons_of_mem x hy)
    rw [List.flatMap_cons, List.map_cons]
    cases xs with
    | nil =>
      rw [List.flatMap_nil, List.append_nil, hfirst, List.map_nil, String.intercalate_singleton]
    | cons y xs =>
      have hrow : (y :: xs).flatMap f ≠ [] := by
        simp [hne y]
      rw [String.intercalate_append_of_ne_nil (hne x List.mem_cons_self) hrow, hfirst, hmore,
        String.intercalate_cons_of_ne_nil (by simp)]

theorem Proper.text_flatten (h : Proper e) : text (flatten e) = text e := by
  induction h with
  | tag hname => rfl
  | not he ih => rw [flatten, text, text, isTag_flatten, ih]
  | and htwo hes ih =>
    rw [flatten, text, text, flattenConjuncts_eq_flatMap, conjunctTexts_eq_map, List.map_flatMap,
      conjunctTexts_eq_map]
    refine intercalate_flatMap ?_ ?_
    · intro e he
      simpa using (hes e he).conjunctsOf_flatten_ne_nil
    · intro e he
      rw [← conjunctTexts_eq_map, intercalate_conjunctsOf, isOr_flatten, ih e he]
  | or htwo hes ih =>
    rw [flatten, text, text, flattenDisjuncts_eq_flatMap, disjunctTexts_eq_map, List.map_flatMap,
      disjunctTexts_eq_map]
    refine intercalate_flatMap ?_ ?_
    · intro e he
      simpa using (hes e he).disjunctsOf_flatten_ne_nil
    · intro e he
      rw [← disjunctTexts_eq_map, intercalate_disjunctsOf, isAnd_flatten, ih e he]

end ImportSurvey.Constraint.Expr
