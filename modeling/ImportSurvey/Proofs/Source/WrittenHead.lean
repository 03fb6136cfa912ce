import ImportSurvey.Proofs.Source.Layout
import ImportSurvey.Proofs.Source.SettledHead
/-!
# Heads as they are written

The head of a file as its author sees it: a package clause and import declarations, single or in
groups, with optional names and semicolons. Written with any gaps between its lexemes, it reads back
as the package, the place of the clause and the paths in order.
-/

namespace ImportSurvey.Source

open Text

inductive Alias
  | dot
  | name (n : Name)

def Alias.lexeme : Alias → Lexeme
  | dot => .mark .dot
  | name n => .word n.toWord

structure ImportSpec where
  binding : Option Alias
  path : PathLiteral

def ImportSpec.lexemes (s : ImportSpec) : List Lexeme :=
  (s.binding.map Alias.lexeme).toList ++ [.path s.path]

def semicolons (n : Nat) : List Lexeme :=
  List.replicate n (.mark .semicolon)

inductive Declaration
  | single (spec : ImportSpec) (ends : Nat)
  | group (members : List (ImportSpec × Nat)) (ends : Nat)

namespace Declaration

def lexemes : Declaration → List Lexeme
  | single spec ends => .word .ofImport :: (spec.lexemes ++ semicolons ends)
  | group members ends =>
    .word .ofImport :: .mark .opening ::
      (members.flatMap (fun m => m.1.lexemes ++ semicolons m.2) ++
        .mark .closing :: semicolons ends)

def specs : Declaration → List ImportSpec
  | single spec _ => [spec]
  | group members _ => members.map Prod.fst

def paths (d : Declaration) : List String :=
  d.specs.map fun s => String.ofList s.path.path

end Declaration

structure WrittenHead where
  package : Name
  ends : Nat
  declarations : List Declaration

namespace WrittenHead

def lexemes (h : WrittenHead) : List Lexeme :=
  .word .ofPackage :: .word h.package.toWord ::
    (semicolons h.ends ++ h.declarations.flatMap Declaration.lexemes)

def paths (h : WrittenHead) : List String :=
  h.declarations.flatMap Declaration.paths

end WrittenHead

/-! ## Reading lexemes -/

variable {more ts : List Token} {t : Token} {l : Lexeme} {ls : List Lexeme}

def Lexeme.isMark (m : Mark) : Lexeme → Bool
  | mark m' => m' == m
  | _ => false

theorem Token.Reads.is_eq (h : t.Reads l) (kind : TokenKind) (text : String) :
    t.is kind text = (l.kind == kind && String.ofList l.text == text) := by
  rw [Token.is, h.kind, h.text]

theorem Token.Reads.is_mark (h : t.Reads l) (m : Mark) :
    t.is .punct (String.ofList [m.char]) = l.isMark m := by
  rw [h.is_eq]
  cases l with
  | word w => rfl
  | mark m' => cases m' <;> cases m <;> decide
  | path p => cases p <;> rfl

theorem Token.Reads.isName_name {n : Name} (h : t.Reads (.word n.toWord)) : t.isName = true := by
  have hfree : isKeyword t.text = false := by
    rw [h.text]
    exact n.free
  rw [Token.isName, h.kind, hfree]
  rfl

private theorem skipSemicolons_cons_of_reads (h : t.Reads l) (hl : l.isMark .semicolon = false) :
    skipSemicolons (t :: ts) = t :: ts := by
  rw [skipSemicolons, List.dropWhile_cons_of_neg]
  rw [Bool.not_eq_true, ← hl]
  exact h.is_mark .semicolon

theorem exists_skipSemicolons {n : Nat} (h : Spells more (semicolons n ++ ls) ts) :
    ∃ rest, Spells more ls rest ∧ skipSemicolons ts = skipSemicolons rest := by
  induction n generalizing ts with
  | zero => exact ⟨ts, h, rfl⟩
  | succ n ih =>
    obtain ⟨t, ts, rfl, ht, htail⟩ := h.uncons
    obtain ⟨rest, hrest, hskip⟩ := ih htail
    refine ⟨rest, hrest, ?_⟩
    rw [← hskip, skipSemicolons, List.dropWhile_cons_of_pos]
    · rfl
    · exact ht.is_mark .semicolon

theorem exists_cons_lexemes (s : ImportSpec) :
    ∃ l ls, s.lexemes = l :: ls ∧ ∀ m, m ≠ .dot → l.isMark m = false := by
  obtain ⟨binding, path⟩ := s
  cases binding with
  | none => exact ⟨_, _, rfl, fun _ _ => rfl⟩
  | some a =>
    refine ⟨_, _, rfl, fun m hm => ?_⟩
    cases a with
    | dot => cases m <;> first | rfl | exact absurd rfl hm
    | name n => rfl

theorem importPath?_spells {p : PathLiteral} (h : Spells more (.path p :: ls) ts) :
    ∃ rest, importPath? ts = some (String.ofList p.path, rest) ∧ Spells more ls rest := by
  obtain ⟨t, ts, rfl, ht, htail⟩ := h.uncons
  refine ⟨ts, ?_, htail⟩
  have hpath : t.isPath = true := by
    rw [Token.isPath, ht.kind, ht.closed]
    cases p <;> rfl
  have hvalue : t.literalValue = String.ofList p.path := by
    rw [Token.literalValue, ht.text, ht.closed]
    simp [Lexeme.text, PathLiteral.text]
  rw [importPath?, if_pos hpath, hvalue]

theorem importSpec?_spells {s : ImportSpec} (h : Spells more (s.lexemes ++ ls) ts) :
    ∃ rest, importSpec? ts = some (String.ofList s.path.path, rest) ∧ Spells more ls rest := by
  obtain ⟨binding, path⟩ := s
  cases binding with
  | none =>
    have hpath := importPath?_spells h
    obtain ⟨t, ts, rfl, ht, htail⟩ := h.uncons
    have hname : t.isName = false := by
      rw [Token.isName, ht.kind]
      cases path <;> rfl
    have hdot : t.is .punct "." = false := ht.is_mark .dot
    rw [importSpec?, if_neg (by simp [hname, hdot])]
    exact hpath
  | some a =>
    obtain ⟨t, ts, rfl, ht, htail⟩ := h.uncons
    have hbinding : (t.isName || t.is .punct ".") = true := by
      cases a with
      | dot =>
        rw [Bool.or_eq_true]
        exact .inr (ht.is_mark .dot)
      | name n =>
        rw [ht.isName_name]
        rfl
    rw [importSpec?, if_pos hbinding]
    exact importPath?_spells htail

/-! ## Reading declarations -/

/-- A group is read as its paths, and no semicolon stands in front of its members. -/
theorem importGroup?_spells {members : List (ImportSpec × Nat)}
    (h : Spells more (members.flatMap (fun m => m.1.lexemes ++ semicolons m.2) ++
      .mark .closing :: ls) ts) :
    ∃ rest, skipSemicolons ts = ts ∧
      importGroup? ts = some (members.map fun m => String.ofList m.1.path.path, rest) ∧
      Spells more ls rest := by
  induction members generalizing ts with
  | nil =>
    obtain ⟨t, ts, rfl, ht, htail⟩ := h.uncons
    have hclose : t.is .punct ")" = true := ht.is_mark .closing
    refine ⟨ts, skipSemicolons_cons_of_reads ht rfl, ?_, htail⟩
    rw [importGroup?, if_pos hclose]
    rfl
  | cons m members ih =>
    rw [List.flatMap_cons, List.append_assoc, List.append_assoc] at h
    obtain ⟨after, hspec, hafter⟩ := importSpec?_spells h
    obtain ⟨next, hnext, hskip⟩ := exists_skipSemicolons hafter
    obtain ⟨rest, hself, hgroup, hrest⟩ := ih hnext
    obtain ⟨l, ls', hl, hmark⟩ := exists_cons_lexemes m.1
    rw [hl] at h
    obtain ⟨t, ts, rfl, ht, htail⟩ := h.uncons
    have hclose : t.is .punct ")" = false :=
      (ht.is_mark .closing).trans (hmark .closing (by decide))
    refine ⟨rest, skipSemicolons_cons_of_reads ht (hmark .semicolon (by decide)), ?_, hrest⟩
    rw [importGroup?_of_spec hclose hspec, hskip, hself, hgroup]
    rfl

theorem importDeclaration?_spells {d : Declaration} (h : Spells more (d.lexemes ++ ls) ts) :
    ∃ t rest after next, ts = t :: rest ∧ t.Reads (.word .ofImport) ∧
      importDeclaration? rest = some (d.paths, after) ∧
      skipSemicolons after = skipSemicolons next ∧ Spells more ls next := by
  cases d with
  | single spec ends =>
    rw [Declaration.lexemes, List.cons_append, List.append_assoc] at h
    obtain ⟨t, ts, rfl, ht, htail⟩ := h.uncons
    obtain ⟨after, hspec, hafter⟩ := importSpec?_spells htail
    obtain ⟨next, hnext, hskip⟩ := exists_skipSemicolons hafter
    refine ⟨t, ts, after, next, rfl, ht, ?_, hskip, hnext⟩
    obtain ⟨l, ls', hl, hmark⟩ := exists_cons_lexemes spec
    rw [hl] at htail
    obtain ⟨u, us, rfl, hu, -⟩ := htail.uncons
    have hopen : u.is .punct "(" = false :=
      (hu.is_mark .opening).trans (hmark .opening (by decide))
    rw [importDeclaration?, if_neg (by simp [hopen]), hspec]
    rfl
  | group members ends =>
    rw [Declaration.lexemes, List.cons_append, List.cons_append, List.append_assoc] at h
    obtain ⟨t, ts, rfl, ht, htail⟩ := h.uncons
    obtain ⟨u, us, rfl, hu, hmembers⟩ := htail.uncons
    rw [List.cons_append] at hmembers
    obtain ⟨after, -, hgroup, hafter⟩ := importGroup?_spells hmembers
    obtain ⟨next, hnext, hskip⟩ := exists_skipSemicolons hafter
    have hopen : u.is .punct "(" = true := hu.is_mark .opening
    refine ⟨t, u :: us, after, next, rfl, ht, ?_, hskip, hnext⟩
    rw [importDeclaration?, if_pos hopen, hgroup, Declaration.paths, Declaration.specs,
      List.map_map]
    rfl

theorem importDeclarations?_spells {ds : List Declaration}
    (h : Spells more (ds.flatMap Declaration.lexemes) ts)
    (hmore : importDeclarations? (skipSemicolons more) = some []) :
    importDeclarations? (skipSemicolons ts) = some (ds.flatMap Declaration.paths) := by
  induction ds generalizing ts with
  | nil =>
    cases h
    exact hmore
  | cons d ds ih =>
    rw [List.flatMap_cons] at h
    obtain ⟨t, rest, after, next, rfl, ht, hread, hskip, hnext⟩ := importDeclaration?_spells h
    have himport : t.is .ident "import" = true := by
      rw [ht.is_eq]
      decide
    rw [skipSemicolons_cons_of_reads ht rfl, importDeclarations?_of_declaration himport hread,
      hskip, ih hnext]
    rfl

theorem ofTokens?_spells {h : WrittenHead} (hs : Spells more h.lexemes (t :: ts))
    (hmore : importDeclarations? (skipSemicolons more) = some []) :
    Head.ofTokens? (t :: ts) = some ⟨h.package.string, t.start, h.paths⟩ := by
  obtain ⟨keyword, rest, heq, hkeyword, htail⟩ := hs.uncons
  obtain ⟨name, rest, rfl, hname, hrest⟩ := htail.uncons
  obtain ⟨rfl, rfl⟩ := List.cons.inj heq
  obtain ⟨next, hnext, hskip⟩ := exists_skipSemicolons hrest
  have hpackage : t.is .ident "package" = true := by
    rw [hkeyword.is_eq]
    decide
  have hclause : clause? (t :: name :: rest) = some (⟨t.start, name.text⟩, rest) := by
    rw [clause?, hpackage, hname.isName_name]
    rfl
  rw [Head.ofTokens?, hclause, hname.text]
  change (importDeclarations? (skipSemicolons rest)).map _ = _
  rw [hskip, importDeclarations?_spells hnext hmore]
  rfl

/-! ## The round trip -/

/-- What may stand behind a head: nothing, or a line end and a text that begins with no further
import, semicolons apart. -/
def EndsHead (tail : List Char) : Prop :=
  tail = [] ∨ ∃ text, tail = '\n' :: text ∧
    (skipSemicolons (significantTokens (String.ofList text))).head?.all
      fun t => !t.is .ident "import"

def Layout.indent (xs : Layout) : Nat :=
  (xs.head?.map fun x => x.1.text.length).getD 0

private theorem head?_skipSemicolons_shift (chars lines : Nat) (ts : List Token) :
    ((skipSemicolons (ts.map (Token.shift chars lines))).head?.all fun t =>
        !t.is .ident "import") =
      (skipSemicolons ts).head?.all fun t => !t.is .ident "import" := by
  rw [skipSemicolons, List.dropWhile_map, List.head?_map, Option.all_map]
  rfl

theorem importDeclarations?_tail {tail : List Char} (htail : EndsHead tail) (trailing : Gap)
    (start line : Nat) :
    importDeclarations? (skipSemicolons ((tokensFrom .openDirective start line
      (trailing.text ++ tail)).filter Token.isSignificant)) = some [] := by
  rw [significant_gap]
  apply importDeclarations?_eq_nil
  rcases htail with rfl | ⟨text, rfl, himport⟩
  · rw [tokensFrom_nil]
    rfl
  · generalize start + trailing.text.length = start'
    generalize line + trailing.text.count '\n' = line'
    have hplace : tokensFrom .openDirective (start' + ['\n'].length)
        (line' + ['\n'].count '\n') text =
          tokensFrom .openDirective (0 + (start' + 1)) (1 + line') text := by
      rw [Nat.zero_add, Nat.add_comm 1]
      rfl
    rw [tokensFrom_of_lexeme (by decide) (lexeme_newline text),
      List.filter_cons_of_neg Bool.false_ne_true, hplace, significant_shift,
      head?_skipSemicolons_shift]
    simpa [significantTokens, tokens] using himport

/-- A head reads back from its text whatever the gaps in it are. -/
theorem head?_written (h : WrittenHead) (xs : Layout) (trailing : Gap) (tail : List Char)
    (hlexemes : xs.map Prod.snd = h.lexemes) (hsep : xs.Separated) (htail : EndsHead tail) :
    head? (String.ofList (xs.text ++ trailing.text ++ tail)) =
      some ⟨h.package.string, xs.indent, h.paths⟩ := by
  cases xs with
  | nil => exact absurd hlexemes (by simp [WrittenHead.lexemes])
  | cons x xs =>
    obtain ⟨g, l⟩ := x
    have hends : EndsWord (trailing.text ++ tail) := by
      cases trailing with
      | nil =>
        rcases htail with rfl | ⟨text, rfl, -⟩
        · rfl
        · rfl
      | cons p trailing =>
        rw [Gap.text, List.flatMap_cons, List.append_assoc]
        exact endsWord_gapPiece p _
    have hspells := spells_layout .openDirective hsep hends 0 1
    rw [head?, significantTokens, tokens, String.toList_ofList, List.append_assoc]
    rw [significant_layout_cons hsep hends] at hspells ⊢
    rw [hlexemes] at hspells
    rw [ofTokens?_spells hspells (importDeclarations?_tail htail trailing _ _)]
    simp [tokenAt, Layout.indent]

theorem head?_written_group :
    head? "// +build x /* a */\n/* package q */package main;\nimport(\n\t_\"a\";`b`\n)\nfunc f() {}" =
      some ⟨"main", 35, ["a", "b"]⟩ := by
  have h := head?_written
    ⟨⟨⟨'m', "ain".toList, by decide, List.all_eq_true.1 (by decide)⟩, by decide⟩, 1,
      [.group [(⟨some (.name ⟨⟨'_', [], by decide, by simp⟩, by decide⟩),
        .quoted "a".toList (by simp)⟩, 1), (⟨none, .raw "b".toList (by decide)⟩, 0)] 0]⟩
    [([.line " +build x /* a */".toList (by decide) (by decide),
        .block " package q ".toList (by decide)], .word .ofPackage),
      ([.blank ' ' rfl], .word ⟨'m', "ain".toList, by decide, List.all_eq_true.1 (by decide)⟩),
      ([], .mark .semicolon), ([.lineEnd], .word .ofImport), ([], .mark .opening),
      ([.lineEnd, .blank '\t' rfl], .word ⟨'_', [], by decide, by simp⟩),
      ([], .path (.quoted "a".toList (by simp))), ([], .mark .semicolon),
      ([], .path (.raw "b".toList (by decide))), ([.lineEnd], .mark .closing)]
    [] "\nfunc f() {}".toList rfl (by simp [Layout.Separated, Lexeme.isWord])
    (.inr ⟨_, rfl, by decide +kernel⟩)
  exact h

end ImportSurvey.Source
