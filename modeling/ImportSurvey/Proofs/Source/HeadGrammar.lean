import ImportSurvey.Proofs.Source.SettledHead
import ImportSurvey.Proofs.Text.Trim
/-!
# The grammar of a head

What the head of a file is, said without reading it: a clause, then declarations, then the end or a
token that begins no other. Each part is a relation between the tokens from its first one on, its
value, and the tokens behind it. Semicolons that stand where some are allowed belong there, all of
them. Every reader of a part hands back exactly what the relation of that part says.
-/

namespace ImportSurvey.Source

variable {ts after next rest : List Token} {t : Token} {path : String} {paths others : List String}
  {clause : Clause} {h : Head}

/-! ## The parts of a head -/

def SemicolonsThen (ts rest : List Token) : Prop :=
  ∃ ends, ts = ends ++ rest ∧ (∀ t ∈ ends, t.is .punct ";" = true) ∧
    rest.head?.all fun t => !t.is .punct ";"

/-- An import: a name or a dot if there is one, a closed path, and then `rest`. -/
inductive SpecThen : List Token → String → List Token → Prop
  | plain {p : Token} {rest : List Token} (hpath : p.isPath = true) :
      SpecThen (p :: rest) p.literalValue rest
  | bound {b p : Token} {rest : List Token} (hbinding : b.isName = true ∨ b.is .punct "." = true)
      (hpath : p.isPath = true) : SpecThen (b :: p :: rest) p.literalValue rest

inductive MembersThen : List Token → List String → List Token → Prop
  | nil {rest : List Token} : MembersThen rest [] rest
  | cons {ts after next rest : List Token} {path : String} {paths : List String}
      (first : SpecThen ts path after) (ends : SemicolonsThen after next)
      (more : MembersThen next paths rest) : MembersThen ts (path :: paths) rest

inductive DeclarationThen : List Token → List String → List Token → Prop
  | single {keyword : Token} {ts after rest : List Token} {path : String}
      (himport : keyword.is .ident "import" = true) (spec : SpecThen ts path after)
      (ends : SemicolonsThen after rest) : DeclarationThen (keyword :: ts) [path] rest
  | group {keyword opening closing : Token} {ts after rest : List Token} {paths : List String}
      (himport : keyword.is .ident "import" = true) (hopening : opening.is .punct "(" = true)
      (members : MembersThen ts paths (closing :: after)) (hclosing : closing.is .punct ")" = true)
      (ends : SemicolonsThen after rest) : DeclarationThen (keyword :: opening :: ts) paths rest

inductive DeclarationsThen : List Token → List String → List Token → Prop
  | nil {rest : List Token} : DeclarationsThen rest [] rest
  | cons {ts next rest : List Token} {paths others : List String}
      (first : DeclarationThen ts paths next) (more : DeclarationsThen next others rest) :
      DeclarationsThen ts (paths ++ others) rest

inductive ClauseThen : List Token → Clause → List Token → Prop
  | mk {keyword name : Token} {ts rest : List Token}
      (hpackage : keyword.is .ident "package" = true) (hname : name.isName = true)
      (ends : SemicolonsThen ts rest) :
      ClauseThen (keyword :: name :: ts) ⟨keyword.start, name.text⟩ rest

/-- A head: a clause and declarations, and then the end or a token that begins no declaration. -/
inductive HasHead : List Token → Head → Prop
  | mk {ts after rest : List Token} {clause : Clause} {imports : List String}
      (first : ClauseThen ts clause after) (more : DeclarationsThen after imports rest)
      (stop : rest.head?.all fun t => !t.is .ident "import") :
      HasHead ts ⟨clause.name, clause.offset, imports⟩

/-! ## Semicolons and imports -/

theorem semicolonsThen_iff : SemicolonsThen ts rest ↔ skipSemicolons ts = rest := by
  constructor
  · rintro ⟨ends, rfl, hends, hstop⟩
    rw [skipSemicolons, List.dropWhile_append_of_pos hends]
    cases rest with
    | nil => rfl
    | cons t rest =>
      have ht : t.is .punct ";" = false := by simpa using hstop
      rw [List.dropWhile_cons_of_neg (by simp [ht])]
  · rintro rfl
    refine ⟨ts.takeWhile (·.is .punct ";"), List.takeWhile_append_dropWhile.symm, ?_, ?_⟩
    · intro t ht
      exact List.all_eq_true.1 List.all_takeWhile t ht
    · exact Text.all_head?_dropWhile (·.is .punct ";") ts

theorem importPath?_iff :
    importPath? ts = some (path, rest) ↔
      ∃ p, ts = p :: rest ∧ p.isPath = true ∧ path = p.literalValue := by
  constructor
  · intro hread
    cases ts with
    | nil => contradiction
    | cons p ts =>
      rw [importPath?] at hread
      by_cases hpath : p.isPath = true
      · rw [if_pos hpath] at hread
        obtain ⟨rfl, rfl⟩ := Prod.mk.inj (Option.some.inj hread)
        exact ⟨p, rfl, hpath, rfl⟩
      · rw [if_neg hpath] at hread
        contradiction
  · rintro ⟨p, rfl, hpath, rfl⟩
    rw [importPath?, if_pos hpath]

private theorem Token.of_isPath (hpath : t.isPath = true) :
    t.isName = false ∧ ∀ mark, t.is .punct mark = false := by
  rw [Token.isPath, Bool.and_eq_true, Bool.or_eq_true, beq_iff_eq, beq_iff_eq] at hpath
  rcases hpath.1 with hkind | hkind
  · simp [Token.isName, Token.is, hkind]
  · simp [Token.isName, Token.is, hkind]

private theorem Token.is_punct_of_isName (hname : t.isName = true) (mark : String) :
    t.is .punct mark = false := by
  rw [Token.isName, Bool.and_eq_true, beq_iff_eq] at hname
  simp [Token.is, hname.1]

private theorem Token.is_punct_of_is {mark mark' : String} (hmark : t.is .punct mark = true)
    (hne : mark ≠ mark') : t.is .punct mark' = false := by
  rw [Token.is, Bool.and_eq_true, beq_iff_eq, beq_iff_eq] at hmark
  simp [Token.is, hmark.2, hne]

theorem importSpec?_iff : importSpec? ts = some (path, rest) ↔ SpecThen ts path rest := by
  constructor
  · intro hread
    cases ts with
    | nil => contradiction
    | cons t ts =>
      rw [importSpec?] at hread
      by_cases hbinding : (t.isName || t.is .punct ".") = true
      · rw [if_pos hbinding] at hread
        obtain ⟨p, rfl, hpath, rfl⟩ := importPath?_iff.1 hread
        rw [Bool.or_eq_true] at hbinding
        exact .bound hbinding hpath
      · rw [if_neg hbinding] at hread
        obtain ⟨p, heq, hpath, rfl⟩ := importPath?_iff.1 hread
        obtain ⟨rfl, rfl⟩ := List.cons.inj heq
        exact .plain hpath
  · intro hspec
    cases hspec with
    | plain hpath =>
      obtain ⟨hname, hmark⟩ := Token.of_isPath hpath
      rw [importSpec?, if_neg (by simp [hname, hmark])]
      exact importPath?_iff.2 ⟨_, rfl, hpath, rfl⟩
    | bound hbinding hpath =>
      rw [importSpec?, if_pos (by rwa [Bool.or_eq_true])]
      exact importPath?_iff.2 ⟨_, rfl, hpath, rfl⟩

theorem SpecThen.exists_cons (hspec : SpecThen ts path rest) :
    ∃ t us, ts = t :: us ∧ ∀ mark, "." ≠ mark → t.is .punct mark = false := by
  cases hspec with
  | plain hpath => exact ⟨_, _, rfl, fun mark _ => (Token.of_isPath hpath).2 mark⟩
  | bound hbinding hpath =>
    refine ⟨_, _, rfl, fun mark hmark => ?_⟩
    rcases hbinding with hname | hdot
    · exact Token.is_punct_of_isName hname mark
    · exact Token.is_punct_of_is hdot hmark

/-! ## Groups -/

theorem exists_members_of_importGroup? (hread : importGroup? ts = some (paths, rest)) :
    ∃ closing, closing.is .punct ")" = true ∧ MembersThen ts paths (closing :: rest) := by
  fun_induction importGroup? ts generalizing paths rest with
  | case1 => contradiction
  | case2 t ts hclosing =>
    obtain ⟨rfl, rfl⟩ := Prod.mk.inj (Option.some.inj hread)
    exact ⟨t, hclosing, .nil⟩
  | case3 t ts hclosing hnone => contradiction
  | case4 t ts hclosing path after hspec hlt hle ih =>
    obtain ⟨⟨more, behind⟩, hmore, hpair⟩ := Option.map_eq_some_iff.1 hread
    obtain ⟨rfl, rfl⟩ := Prod.mk.inj hpair
    obtain ⟨closing, hclose, hmembers⟩ := ih hmore
    exact ⟨closing, hclose, .cons (importSpec?_iff.1 hspec) (semicolonsThen_iff.2 rfl) hmembers⟩

theorem importGroup?_of_members {closing : Token}
    (hmembers : MembersThen ts paths (closing :: rest))
    (hclosing : closing.is .punct ")" = true) : importGroup? ts = some (paths, rest) := by
  generalize htail : closing :: rest = tail at hmembers
  induction hmembers with
  | nil => rw [← htail, importGroup?, if_pos hclosing]
  | cons first ends more ih =>
    obtain ⟨t, us, rfl, hmark⟩ := first.exists_cons
    rw [importGroup?_of_spec (hmark ")" (by decide)) (importSpec?_iff.2 first),
      semicolonsThen_iff.1 ends, ih htail]
    rfl

theorem importGroup?_iff :
    importGroup? ts = some (paths, rest) ↔
      ∃ closing, closing.is .punct ")" = true ∧ MembersThen ts paths (closing :: rest) := by
  constructor
  · exact exists_members_of_importGroup?
  · rintro ⟨closing, hclosing, hmembers⟩
    exact importGroup?_of_members hmembers hclosing

/-! ## Declarations -/

theorem importDeclaration?_iff (himport : t.is .ident "import" = true) :
    (∃ after, importDeclaration? ts = some (paths, after) ∧ skipSemicolons after = rest) ↔
      DeclarationThen (t :: ts) paths rest := by
  constructor
  · rintro ⟨after, hread, hskip⟩
    cases ts with
    | nil => contradiction
    | cons u us =>
      rw [importDeclaration?] at hread
      by_cases hopening : u.is .punct "(" = true
      · rw [if_pos hopening] at hread
        obtain ⟨closing, hclosing, hmembers⟩ := importGroup?_iff.1 hread
        exact .group himport hopening hmembers hclosing (semicolonsThen_iff.2 hskip)
      · rw [if_neg hopening] at hread
        obtain ⟨⟨path, behind⟩, hspec, hpair⟩ := Option.map_eq_some_iff.1 hread
        obtain ⟨rfl, rfl⟩ := Prod.mk.inj hpair
        exact .single himport (importSpec?_iff.1 hspec) (semicolonsThen_iff.2 hskip)
  · intro hdeclaration
    cases hdeclaration with
    | single _ spec ends =>
      obtain ⟨u, us, rfl, hmark⟩ := spec.exists_cons
      refine ⟨_, ?_, semicolonsThen_iff.1 ends⟩
      rw [importDeclaration?, if_neg (by simp [hmark "(" (by decide)]), importSpec?_iff.2 spec]
      rfl
    | group _ hopening members hclosing ends =>
      refine ⟨_, ?_, semicolonsThen_iff.1 ends⟩
      rw [importDeclaration?, if_pos hopening]
      exact importGroup?_of_members members hclosing

theorem DeclarationThen.exists_cons (hdeclaration : DeclarationThen ts paths rest) :
    ∃ t us, ts = t :: us ∧ t.is .ident "import" = true := by
  cases hdeclaration with
  | single himport _ _ => exact ⟨_, _, rfl, himport⟩
  | group himport _ _ _ _ => exact ⟨_, _, rfl, himport⟩

theorem exists_declarations_of_importDeclarations? (hread : importDeclarations? ts = some paths) :
    ∃ rest, DeclarationsThen ts paths rest ∧
      rest.head?.all fun t => !t.is .ident "import" := by
  fun_induction importDeclarations? ts generalizing paths with
  | case1 =>
    obtain rfl := Option.some.inj hread
    exact ⟨[], .nil, rfl⟩
  | case2 t ts himport hnone => contradiction
  | case3 t ts himport first after hfirst hlt hle ih =>
    obtain ⟨others, hothers, rfl⟩ := Option.map_eq_some_iff.1 hread
    obtain ⟨rest, hrest, hstop⟩ := ih hothers
    have hdeclaration : DeclarationThen (t :: ts) first (skipSemicolons after) :=
      (importDeclaration?_iff himport).1 ⟨after, hfirst, rfl⟩
    exact ⟨rest, .cons hdeclaration hrest, hstop⟩
  | case4 t ts himport =>
    obtain rfl := Option.some.inj hread
    exact ⟨t :: ts, .nil, by simpa using himport⟩

theorem importDeclarations?_of_declarations (hdeclarations : DeclarationsThen ts paths rest)
    (hstop : rest.head?.all fun t => !t.is .ident "import") :
    importDeclarations? ts = some paths := by
  induction hdeclarations with
  | nil => exact importDeclarations?_eq_nil hstop
  | cons first more ih =>
    obtain ⟨t, us, rfl, himport⟩ := first.exists_cons
    obtain ⟨after, hread, hskip⟩ := (importDeclaration?_iff himport).2 first
    rw [importDeclarations?_of_declaration himport hread, hskip, ih hstop]
    rfl

theorem importDeclarations?_iff :
    importDeclarations? ts = some paths ↔
      ∃ rest, DeclarationsThen ts paths rest ∧
        rest.head?.all fun t => !t.is .ident "import" := by
  constructor
  · exact exists_declarations_of_importDeclarations?
  · rintro ⟨rest, hdeclarations, hstop⟩
    exact importDeclarations?_of_declarations hdeclarations hstop

/-! ## Heads -/

theorem clause?_iff :
    (∃ after, clause? ts = some (clause, after) ∧ skipSemicolons after = rest) ↔
      ClauseThen ts clause rest := by
  constructor
  · rintro ⟨after, hread, hskip⟩
    cases ts with
    | nil => contradiction
    | cons keyword ts =>
      cases ts with
      | nil => contradiction
      | cons name ts =>
        rw [clause?] at hread
        by_cases hclause : (keyword.is .ident "package" && name.isName) = true
        · rw [if_pos hclause] at hread
          obtain ⟨rfl, rfl⟩ := Prod.mk.inj (Option.some.inj hread)
          rw [Bool.and_eq_true] at hclause
          exact .mk hclause.1 hclause.2 (semicolonsThen_iff.2 hskip)
        · rw [if_neg hclause] at hread
          contradiction
  · intro hclause
    cases hclause with
    | mk hpackage hname ends =>
      refine ⟨_, ?_, semicolonsThen_iff.1 ends⟩
      rw [clause?, if_pos (by rw [hpackage, hname]; rfl)]

theorem ofTokens?_iff : Head.ofTokens? ts = some h ↔ HasHead ts h := by
  constructor
  · intro hread
    obtain ⟨⟨clause, after⟩, hclause, hrest⟩ := Option.bind_eq_some_iff.1 hread
    obtain ⟨imports, himports, rfl⟩ := Option.map_eq_some_iff.1 hrest
    obtain ⟨rest, hdeclarations, hstop⟩ := importDeclarations?_iff.1 himports
    exact .mk (clause?_iff.1 ⟨after, hclause, rfl⟩) hdeclarations hstop
  · intro hhead
    cases hhead with
    | mk first more stop =>
      obtain ⟨after, hclause, hskip⟩ := clause?_iff.2 first
      rw [Head.ofTokens?, hclause]
      change (importDeclarations? (skipSemicolons after)).map _ = _
      rw [hskip, importDeclarations?_of_declarations more stop]
      rfl

theorem clauseOffset?_of_hasHead {source : String} (hhead : HasHead (significantTokens source) h) :
    clauseOffset? source = some h.offset := by
  cases hhead with
  | mk first more stop =>
    obtain ⟨after, hclause, -⟩ := clause?_iff.2 first
    rw [clauseOffset?, hclause]
    rfl

/-- A file has a head exactly if its tokens with syntax derive one, and then its package, its
imports and the place of its clause are the ones derived. A file without a head has no imports,
however many of its declarations are well formed. -/
theorem head?_eq_some_iff (source : String) :
    (∀ h, head? source = some h ↔ HasHead (significantTokens source) h) ∧
      (∀ h, HasHead (significantTokens source) h →
        clauseOffset? source = some h.offset ∧ importsOf source = h.imports) ∧
      ((∀ h, ¬ HasHead (significantTokens source) h) →
        head? source = none ∧ importsOf source = []) := by
  have hiff : ∀ h, head? source = some h ↔ HasHead (significantTokens source) h := by
    intro h
    exact ofTokens?_iff
  refine ⟨hiff, ?_, ?_⟩
  · intro h hhead
    refine ⟨clauseOffset?_of_hasHead hhead, ?_⟩
    rw [importsOf, (hiff h).2 hhead]
    rfl
  · intro hno
    have hnone : head? source = none := by
      rw [Option.eq_none_iff_forall_ne_some]
      intro h hread
      exact hno h ((hiff h).1 hread)
    refine ⟨hnone, ?_⟩
    rw [importsOf, hnone]
    rfl

/-- A group with an escaped quote, a dot and spare semicolons is derived, and a group that is left
open behind a good declaration takes the head away. -/
theorem head?_eq_some_iff_groups :
    HasHead (significantTokens
        "package p;;\nimport (a \"x\\\"y\"; . `b`;;\n) import \"x\" ; func")
        ⟨"p", 0, ["x\\\"y", "b", "x"]⟩ ∧
      importsOf "package p;;\nimport (a \"x\\\"y\"; . `b`;;\n) import \"x\" ; func" =
        ["x\\\"y", "b", "x"] ∧
      importsOf "package p\nimport \"a\"\nimport (\"b\";" = [] := by
  have hgood := head?_eq_some_iff
    "package p;;\nimport (a \"x\\\"y\"; . `b`;;\n) import \"x\" ; func"
  have hopen := head?_eq_some_iff "package p\nimport \"a\"\nimport (\"b\";"
  have hread : HasHead (significantTokens
      "package p;;\nimport (a \"x\\\"y\"; . `b`;;\n) import \"x\" ; func")
      ⟨"p", 0, ["x\\\"y", "b", "x"]⟩ :=
    (hgood.1 _).1 (by decide +kernel)
  have hnone : head? "package p\nimport \"a\"\nimport (\"b\";" = none := by decide +kernel
  refine ⟨hread, (hgood.2.1 _ hread).2, (hopen.2.2 fun h hhead => ?_).2⟩
  have hsome := (hopen.1 h).2 hhead
  rw [hnone] at hsome
  contradiction

end ImportSurvey.Source
