import ImportSurvey.Source.Lexer
/-!
# Package clause and imports

The head of a Go file, read from its significant tokens: the package clause, then import
declarations, single or grouped, up to the first token that begins no other. A file whose head is
malformed anywhere has no head at all.
-/

namespace ImportSurvey.Source

def keywords : List String :=
  ["break", "case", "chan", "const", "continue", "default", "defer", "else", "fallthrough", "for",
    "func", "go", "goto", "if", "import", "interface", "map", "package", "range", "return",
    "select", "struct", "switch", "type", "var"]

def isKeyword (word : String) : Bool :=
  keywords.contains word

/-- A package clause: where its keyword stands and the name it gives. -/
structure Clause where
  offset : Nat
  name : String
deriving DecidableEq, Repr

/-- The head of a file: package, offset of the clause, and the import paths in order. -/
structure Head where
  package : String
  offset : Nat
  imports : List String
deriving DecidableEq, Repr

/-- An identifier that names something. -/
def Token.isName (t : Token) : Bool :=
  t.kind == .ident && !isKeyword t.text

def Token.isPath (t : Token) : Bool :=
  (t.kind == .string || t.kind == .rawString) && t.closed

def clause? : List Token → Option (Clause × List Token)
  | keyword :: name :: rest =>
    if keyword.is .ident "package" && name.isName then
      some (⟨keyword.start, name.text⟩, rest)
    else none
  | _ => none

def skipSemicolons (ts : List Token) : List Token :=
  ts.dropWhile (·.is .punct ";")

def importPath? : List Token → Option (String × List Token)
  | t :: rest => if t.isPath then some (t.literalValue, rest) else none
  | [] => none

/-- One import: a name or a dot if there is one, and the path. -/
def importSpec? : List Token → Option (String × List Token)
  | t :: rest =>
    if t.isName || t.is .punct "." then importPath? rest else importPath? (t :: rest)
  | [] => none

theorem skipSemicolons_length_le (ts : List Token) : (skipSemicolons ts).length ≤ ts.length :=
  (List.dropWhile_suffix _).length_le

theorem importPath?_length_lt {ts rest : List Token} {path : String}
    (h : importPath? ts = some (path, rest)) : rest.length < ts.length := by
  cases ts with
  | nil => simp [importPath?] at h
  | cons t ts =>
    simp only [importPath?] at h
    split at h
    · simp only [Option.some.injEq, Prod.mk.injEq] at h
      simp [h.2]
    · simp at h

theorem importSpec?_length_lt {ts rest : List Token} {path : String}
    (h : importSpec? ts = some (path, rest)) : rest.length < ts.length := by
  cases ts with
  | nil => simp [importSpec?] at h
  | cons t ts =>
    simp only [importSpec?] at h
    split at h
    · exact Nat.lt_succ_of_lt (importPath?_length_lt h)
    · exact importPath?_length_lt h

/-- The imports of a group, up to its closing parenthesis, and what follows that. -/
def importGroup? (ts : List Token) : Option (List String × List Token) :=
  match ts with
  | [] => none
  | t :: rest =>
    if t.is .punct ")" then some ([], rest)
    else
      match h : importSpec? (t :: rest) with
      | none => none
      | some (path, after) =>
        have := importSpec?_length_lt h
        have := skipSemicolons_length_le after
        (importGroup? (skipSemicolons after)).map fun more => (path :: more.1, more.2)
termination_by ts.length
decreasing_by all_goals (simp only [List.length_cons] at *; omega)

theorem importGroup?_length_lt {ts rest : List Token} {paths : List String}
    (h : importGroup? ts = some (paths, rest)) : rest.length < ts.length := by
  fun_induction importGroup? ts generalizing paths rest with
  | case1 => simp at h
  | case2 t ts hclose =>
    simp only [Option.some.injEq, Prod.mk.injEq] at h
    simp [h.2]
  | case3 t ts hclose hspec => simp at h
  | case4 t ts hclose path after hspec hlt hle ih =>
    obtain ⟨more, hmore, hpair⟩ := Option.map_eq_some_iff.1 h
    simp only [Prod.mk.injEq] at hpair
    have := @ih more.2 more.1 hmore
    rw [hpair.2] at this
    omega

/-- The imports of one declaration, behind its keyword. -/
def importDeclaration? : List Token → Option (List String × List Token)
  | t :: rest =>
    if t.is .punct "(" then importGroup? rest
    else (importSpec? (t :: rest)).map fun spec => ([spec.1], spec.2)
  | [] => none

theorem importDeclaration?_length_lt {ts rest : List Token} {paths : List String}
    (h : importDeclaration? ts = some (paths, rest)) : rest.length < ts.length := by
  cases ts with
  | nil => simp [importDeclaration?] at h
  | cons t ts =>
    simp only [importDeclaration?] at h
    split at h
    · exact Nat.lt_succ_of_lt (importGroup?_length_lt h)
    · obtain ⟨spec, hspec, hpair⟩ := Option.map_eq_some_iff.1 h
      simp only [Prod.mk.injEq] at hpair
      rw [← hpair.2]
      exact importSpec?_length_lt hspec

/-- The imports of all declarations in a row. -/
def importDeclarations? (ts : List Token) : Option (List String) :=
  match ts with
  | [] => some []
  | t :: rest =>
    if t.is .ident "import" then
      match h : importDeclaration? rest with
      | none => none
      | some (paths, after) =>
        have := importDeclaration?_length_lt h
        have := skipSemicolons_length_le after
        (importDeclarations? (skipSemicolons after)).map (paths ++ ·)
    else some []
termination_by ts.length
decreasing_by all_goals (simp only [List.length_cons] at *; omega)

/-- The head of a file with these significant tokens. -/
def Head.ofTokens? (ts : List Token) : Option Head :=
  (clause? ts).bind fun (clause, rest) =>
    (importDeclarations? (skipSemicolons rest)).map fun imports =>
      ⟨clause.name, clause.offset, imports⟩

def head? (source : String) : Option Head :=
  Head.ofTokens? (significantTokens source)

/-- The offset of the package clause, be the imports behind it well formed or not. -/
def clauseOffset? (source : String) : Option Nat :=
  (clause? (significantTokens source)).map (·.1.offset)

/-- The import paths in order, duplicates kept; none if the head is malformed. -/
def importsOf (source : String) : List String :=
  ((head? source).map (·.imports)).getD []

end ImportSurvey.Source
