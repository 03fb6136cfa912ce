import ImportSurvey.Source.Imports
/-!
# What settles a head

A part of a head that is read from some tokens is read in the same way with more tokens behind
them. So the head is settled by the tokens up to the first one that can neither end a declaration
nor begin another.
-/

namespace ImportSurvey.Source

variable {ts rest more : List Token} {path : String} {paths : List String} {t : Token}

/-! ## One step -/

theorem importGroup?_of_spec {after : List Token}
    (hclose : t.is .punct ")" = false) (h : importSpec? (t :: rest) = some (path, after)) :
    importGroup? (t :: rest) =
      (importGroup? (skipSemicolons after)).map fun more => (path :: more.1, more.2) := by
  rw [importGroup?, if_neg (by simp [hclose])]
  split
  · simp_all
  · simp_all

theorem importDeclarations?_of_declaration {after : List Token}
    (himport : t.is .ident "import" = true)
    (h : importDeclaration? rest = some (paths, after)) :
    importDeclarations? (t :: rest) =
      (importDeclarations? (skipSemicolons after)).map (paths ++ ·) := by
  rw [importDeclarations?, if_pos himport]
  split
  · simp_all
  · simp_all

theorem importDeclarations?_eq_nil (h : ts.head?.all fun t => !t.is .ident "import") :
    importDeclarations? ts = some [] := by
  cases ts with
  | nil => rw [importDeclarations?]
  | cons t ts =>
    have himport : t.is .ident "import" = false := by simpa using h
    rw [importDeclarations?, if_neg (by simp [himport])]

/-! ## More tokens behind -/

theorem skipSemicolons_append (h : skipSemicolons ts ≠ [] ∨ skipSemicolons more = more) :
    skipSemicolons (ts ++ more) = skipSemicolons ts ++ more := by
  unfold skipSemicolons at h ⊢
  rw [List.dropWhile_append]
  by_cases hempty : ts.dropWhile (·.is .punct ";") = []
  · rw [hempty, List.isEmpty_nil, if_pos rfl, h.resolve_left (absurd hempty), List.nil_append]
  · rw [if_neg (by simpa using hempty)]

theorem clause?_append {clause : Clause} (h : clause? ts = some (clause, rest))
    (more : List Token) : clause? (ts ++ more) = some (clause, rest ++ more) := by
  cases ts with
  | nil => contradiction
  | cons keyword ts =>
    cases ts with
    | nil => contradiction
    | cons name ts =>
      simp only [List.cons_append, clause?] at h ⊢
      by_cases hclause : (keyword.is .ident "package" && name.isName) = true
      · rw [if_pos hclause] at h ⊢
        obtain ⟨rfl, rfl⟩ := Prod.mk.inj (Option.some.inj h)
        rfl
      · rw [if_neg hclause] at h
        contradiction

theorem importPath?_append (h : importPath? ts = some (path, rest)) (more : List Token) :
    importPath? (ts ++ more) = some (path, rest ++ more) := by
  cases ts with
  | nil => contradiction
  | cons t ts =>
    simp only [List.cons_append, importPath?] at h ⊢
    by_cases hpath : t.isPath = true
    · rw [if_pos hpath] at h ⊢
      obtain ⟨rfl, rfl⟩ := Prod.mk.inj (Option.some.inj h)
      rfl
    · rw [if_neg hpath] at h
      contradiction

theorem importSpec?_append (h : importSpec? ts = some (path, rest)) (more : List Token) :
    importSpec? (ts ++ more) = some (path, rest ++ more) := by
  cases ts with
  | nil => contradiction
  | cons t ts =>
    simp only [List.cons_append, importSpec?] at h ⊢
    by_cases halias : (t.isName || t.is .punct ".") = true
    · rw [if_pos halias] at h ⊢
      exact importPath?_append h more
    · rw [if_neg halias] at h ⊢
      exact importPath?_append h more

theorem importGroup?_append (h : importGroup? ts = some (paths, rest)) (more : List Token) :
    importGroup? (ts ++ more) = some (paths, rest ++ more) := by
  fun_induction importGroup? ts generalizing paths rest with
  | case1 => contradiction
  | case2 t ts hclose =>
    obtain ⟨rfl, rfl⟩ := Prod.mk.inj (Option.some.inj h)
    rw [List.cons_append, importGroup?, if_pos hclose]
  | case3 t ts hclose hspec => contradiction
  | case4 t ts hclose path after hspec hlt hle ih =>
    obtain ⟨⟨inner, behind⟩, hinner, hpair⟩ := Option.map_eq_some_iff.1 h
    obtain ⟨rfl, rfl⟩ := Prod.mk.inj hpair
    have hne : skipSemicolons after ≠ [] := by
      intro hnil
      rw [hnil, importGroup?] at hinner
      contradiction
    have hlong := importSpec?_append hspec more
    rw [List.cons_append] at hlong
    rw [List.cons_append, importGroup?_of_spec (by simpa using hclose) hlong,
      skipSemicolons_append (.inl hne), ih hinner]
    rfl

theorem importDeclaration?_append (h : importDeclaration? ts = some (paths, rest))
    (more : List Token) :
    importDeclaration? (ts ++ more) = some (paths, rest ++ more) := by
  cases ts with
  | nil => contradiction
  | cons t ts =>
    simp only [List.cons_append, importDeclaration?] at h ⊢
    by_cases hopen : t.is .punct "(" = true
    · rw [if_pos hopen] at h ⊢
      exact importGroup?_append h more
    · rw [if_neg hopen] at h ⊢
      obtain ⟨⟨path, behind⟩, hspec, hpair⟩ := Option.map_eq_some_iff.1 h
      obtain ⟨rfl, rfl⟩ := Prod.mk.inj hpair
      have hlong := importSpec?_append hspec more
      rw [List.cons_append] at hlong
      rw [hlong]
      rfl

theorem importDeclarations?_append (h : importDeclarations? ts = some paths)
    (hskip : skipSemicolons more = more) (hstop : importDeclarations? more = some []) :
    importDeclarations? (ts ++ more) = some paths := by
  fun_induction importDeclarations? ts generalizing paths with
  | case1 =>
    rw [List.nil_append, hstop]
    exact h
  | case2 t ts himport hnone => contradiction
  | case3 t ts himport first after hfirst hlt hle ih =>
    obtain ⟨others, hothers, rfl⟩ := Option.map_eq_some_iff.1 h
    have hlong := importDeclaration?_append hfirst more
    rw [List.cons_append, importDeclarations?_of_declaration himport hlong,
      skipSemicolons_append (.inr hskip), ih hothers]
    rfl
  | case4 t ts himport =>
    rw [List.cons_append, importDeclarations?, if_neg himport]
    exact h

/-! ## The end of a head -/

/-- Tokens that settle the head of a file, whatever tokens follow them. -/
def SettlesHead (ts : List Token) : Prop :=
  ∀ more, Head.ofTokens? (ts ++ more) = Head.ofTokens? ts

/-- A head is settled by its tokens and one that begins no declaration behind them. -/
theorem settlesHead_concat {head : Head} (h : Head.ofTokens? ts = some head)
    (hsemicolon : t.is .punct ";" = false) (himport : t.is .ident "import" = false) :
    SettlesHead (ts ++ [t]) := by
  obtain ⟨⟨clause, rest⟩, hclause, hrest⟩ := Option.bind_eq_some_iff.1 h
  obtain ⟨imports, himports, rfl⟩ := Option.map_eq_some_iff.1 hrest
  have hread : ∀ more, Head.ofTokens? (ts ++ t :: more) =
      some ⟨clause.name, clause.offset, imports⟩ := by
    intro more
    have hskip : skipSemicolons (t :: more) = t :: more := by
      rw [skipSemicolons, List.dropWhile_cons_of_neg (by simp [hsemicolon])]
    have hstop : importDeclarations? (t :: more) = some [] :=
      importDeclarations?_eq_nil (by simp [himport])
    rw [Head.ofTokens?, clause?_append hclause (t :: more)]
    change (importDeclarations? (skipSemicolons (rest ++ t :: more))).map _ = _
    rw [skipSemicolons_append (.inr hskip), importDeclarations?_append himports hskip hstop]
    rfl
  intro more
  rw [List.append_assoc, List.singleton_append, hread, hread]

end ImportSurvey.Source
