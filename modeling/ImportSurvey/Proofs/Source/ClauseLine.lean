import ImportSurvey.Proofs.Source.PackageLine
import ImportSurvey.Proofs.Source.Stream
/-!
# What stands before a package clause

A package clause on a line of its own settles all tokens before it. A comment in front of it is
closed there or not at all, and a directive that leaves a block open is never carried beyond the
clause, so none of these tokens depends on what follows the line.
-/

namespace ImportSurvey.Source

open Text

variable {c : Char} {cs p q r : List Char} {t : Token}

structure ClauseLine where
  indent : List Char
  space : List Char
  name : Name
  trailing : List Char
  indent_inline : ∀ c ∈ indent, isInlineSpace c = true
  space_inline : ∀ c ∈ space, isInlineSpace c = true
  space_ne_nil : space ≠ []
  trailing_inline : ∀ c ∈ trailing, isInlineSpace c = true

namespace ClauseLine

def behindKeyword (l : ClauseLine) : List Char :=
  l.space ++ (l.name.toWord.text ++ l.trailing)

def line (l : ClauseLine) : List Char :=
  l.indent ++ (Word.ofPackage.text ++ l.behindKeyword)

def text (l : ClauseLine) : List Char :=
  l.line ++ ['\n']

end ClauseLine

/-! ## The line itself -/

def ClauseLine.start (l : ClauseLine) : ClauseStart :=
  ⟨l.indent, l.space, l.name.toWord, l.trailing, l.indent_inline, l.space_inline, l.space_ne_nil,
    l.trailing_inline⟩

theorem isClauseLine_line (l : ClauseLine) : IsClauseLine l.line :=
  ⟨l.start, [], .nothing, List.append_nil _⟩

theorem not_mem_line {d : Char} (hspace : isInlineSpace d = false) (hword : isWord d = false)
    (l : ClauseLine) : d ∉ l.line := by
  have hinline : ∀ cs : List Char, (∀ c ∈ cs, isInlineSpace c = true) → d ∉ cs := by
    intro cs h hd
    rw [h d hd] at hspace
    contradiction
  have hwords : ∀ w : Word, d ∉ w.text := by
    intro w hd
    rw [w.isWord_of_mem hd] at hword
    contradiction
  simp [ClauseLine.line, ClauseLine.behindKeyword, hinline _ l.indent_inline,
    hinline _ l.space_inline, hinline _ l.trailing_inline, hwords]

/-! ## Whole lines -/

/-- A text of whole lines: nothing, or something that ends with a line end. -/
def WholeLines (p : List Char) : Prop :=
  ∀ c ∈ p.getLast?, c = '\n'

theorem WholeLines.of_append (h : WholeLines (p ++ q)) : WholeLines q := by
  intro c hc
  apply h
  rw [List.getLast?_append, Option.mem_def.1 hc]
  rfl

theorem WholeLines.ne_nil (h : WholeLines (c :: p)) (hc : c ≠ '\n') : p ≠ [] := by
  rintro rfl
  exact hc (h c rfl)

theorem WholeLines.exists_concat (h : WholeLines (c :: p)) : ∃ s, c :: p = s ++ ['\n'] := by
  have hne : c :: p ≠ [] := List.cons_ne_nil c p
  have hlast := h _ (List.getLast?_eq_some_getLast hne)
  refine ⟨(c :: p).dropLast, ?_⟩
  rw [← hlast, List.dropLast_concat_getLast]

theorem cut?_wholeLines (hp : WholeLines p) (h : cut? ['*', '/'] p = none) (r : List Char) :
    cut? ['*', '/'] (p ++ r) = (cut? ['*', '/'] r).map fun x => (p ++ x.1, x.2) := by
  apply cut?_pair_append h
  intro hlast
  exact absurd (hp '*' hlast) (by decide)

theorem holdsPackageLine_clause (hp : WholeLines ('\n' :: q)) (l : ClauseLine) (b : List Char) :
    holdsPackageLine ('\n' :: (q ++ (l.text ++ b))) = true := by
  obtain ⟨s, hs⟩ := hp.exists_concat
  have hline : '\n' ∉ l.line := not_mem_line rfl (by decide) l
  have htext : '\n' :: (q ++ (l.text ++ b)) = s ++ '\n' :: (l.line ++ '\n' :: b) := by
    rw [← List.cons_append, hs]
    simp [ClauseLine.text]
  rw [holdsPackageLine_iff, htext, linesBelow_append,
    List.splitOn_append_cons_self_of_not_mem hline]
  exact ⟨l.line, by simp, isClauseLine_line l⟩

private theorem cut?_clause (l : ClauseLine) (r : List Char) :
    cut? ['*', '/'] (l.text ++ r) = (cut? ['*', '/'] r).map fun x => (l.text ++ x.1, x.2) := by
  have hstar : '*' ∉ l.text := by
    have hline := not_mem_line (d := '*') rfl (by decide) l
    simp [ClauseLine.text, hline]
  have hwhole : WholeLines l.text := by
    simp [WholeLines, ClauseLine.text]
  exact cut?_wholeLines hwhole (cut?_eq_none_of_not_mem hstar) r

/-- How a directive is carried on before a clause does not depend on what follows the clause: if its
block is closed there, it is closed for good, and else the clause stands in between. -/
theorem extendDirective_before_clause (l : ClauseLine) (own : List Char)
    (hq : WholeLines ('\n' :: q)) :
    ∃ text q', own ++ '\n' :: q = text ++ q' ∧ WholeLines q' ∧ ∀ r,
      extendDirective ⟨own, '\n' :: (q ++ (l.text ++ r)), true⟩ =
        ⟨text, q' ++ (l.text ++ r), true⟩ := by
  by_cases hopen : leavesBlockOpen own = true
  · cases hcut : cut? ['*', '/'] ('\n' :: q) with
    | none =>
      refine ⟨own, '\n' :: q, rfl, hq, fun r => ?_⟩
      have hlong := cut?_wholeLines hq hcut (l.text ++ r)
      rw [cut?_clause] at hlong
      cases hr : cut? ['*', '/'] r with
      | none =>
        rw [hr] at hlong
        exact extendDirective_of_unclosed hlong
      | some x =>
        rw [hr] at hlong
        exact extendDirective_of_packageLine hlong (holdsPackageLine_clause hq l x.1)
    | some x =>
      obtain ⟨body, q'⟩ := x
      have hlong : ∀ r, cut? ['*', '/'] ('\n' :: (q ++ (l.text ++ r))) =
          some (body, q' ++ (l.text ++ r)) := fun r => cut?_append (l.text ++ r) hcut
      have hwhole := cut?_eq_append hcut
      cases hpackage : holdsPackageLine body with
      | true =>
        refine ⟨own, '\n' :: q, rfl, hq, fun r => ?_⟩
        exact extendDirective_of_packageLine (hlong r) hpackage
      | false =>
        refine ⟨own ++ body ++ ['*', '/'], q', ?_, ?_, fun r => ?_⟩
        · rw [hwhole]
          simp
        · rw [hwhole] at hq
          exact hq.of_append
        · exact extendDirective_of_open hopen (hlong r) hpackage
  · refine ⟨own, '\n' :: q, rfl, hq, fun r => ?_⟩
    exact extendDirective_of_closed (by simpa using hopen)

private theorem length_indent_lt (l : ClauseLine) : l.indent.length < l.text.length := by
  simp only [ClauseLine.text, ClauseLine.line, List.length_append, List.length_singleton]
  omega

private theorem length_block_clause (l : ClauseLine) (hp : WholeLines p)
    (h : cut? ['*', '/'] p = none) (r : List Char) :
    ('/' :: '*' :: p).length + l.indent.length <
      (delimited ['/', '*'] ['*', '/'] (p ++ (l.text ++ r))).text.length := by
  have hindent := length_indent_lt l
  have hlong := cut?_wholeLines hp h (l.text ++ r)
  rw [cut?_clause] at hlong
  unfold delimited
  rw [hlong]
  cases cut? ['*', '/'] r with
  | none =>
    simp only [Option.map_none, List.length_append, List.length_cons, List.length_nil]
    omega
  | some x =>
    simp only [Option.map_some, List.length_append, List.length_cons, List.length_nil]
    omega

theorem lineComment_before_clause (l : ClauseLine) (hp : WholeLines ('/' :: '/' :: p)) :
    ∃ text q, '/' :: '/' :: p = text ++ q ∧ WholeLines q ∧ ∀ r,
      lineComment .openDirective ('/' :: '/' :: (p ++ (l.text ++ r))) =
        ⟨text, q ++ (l.text ++ r), true⟩ := by
  obtain ⟨s, hs⟩ := hp.exists_concat
  have hmem : '\n' ∈ '/' :: '/' :: p := by
    rw [hs]
    simp
  obtain ⟨own, q, hown, hline⟩ := List.eq_append_cons_of_mem hmem
  have hq : WholeLines ('\n' :: q) := by
    rw [hown] at hp
    exact hp.of_append
  obtain ⟨text, q', htext, hwhole, hextend⟩ := extendDirective_before_clause l own hq
  refine ⟨text, q', hown.trans htext, hwhole, fun r => ?_⟩
  have hsource : '/' :: '/' :: (p ++ (l.text ++ r)) = own ++ '\n' :: (q ++ (l.text ++ r)) := by
    rw [← List.cons_append, ← List.cons_append, hown, List.append_assoc, List.cons_append]
  change extendDirective (runOf (· != '\n') ('/' :: '/' :: (p ++ (l.text ++ r)))) = _
  rw [hsource, runOf_line hline, hextend]

theorem delimited_before_clause (l : ClauseLine) (hp : WholeLines p) (r₀ : List Char)
    (hstop : (delimited ['/', '*'] ['*', '/'] (p ++ (l.text ++ r₀))).text.length ≤
      ('/' :: '*' :: p).length + l.indent.length) :
    ∃ text q, '/' :: '*' :: p = text ++ q ∧ WholeLines q ∧ ∀ r,
      delimited ['/', '*'] ['*', '/'] (p ++ (l.text ++ r)) = ⟨text, q ++ (l.text ++ r), true⟩ := by
  cases hcut : cut? ['*', '/'] p with
  | none =>
    have hlong := length_block_clause l hp hcut r₀
    omega
  | some x =>
    obtain ⟨body, q⟩ := x
    have hbody := cut?_eq_append hcut
    refine ⟨['/', '*'] ++ body ++ ['*', '/'], q, ?_, ?_, fun r => ?_⟩
    · rw [hbody]
      simp
    · rw [hbody] at hp
      exact hp.of_append
    · rw [delimited, cut?_append (l.text ++ r) hcut]

/-- A token without syntax that ends before a clause does not depend on what follows the clause. -/
theorem lexeme_before_clause (l : ClauseLine) (hp : WholeLines (c :: p)) (r₀ : List Char)
    (htrivia : (lexeme .openDirective c (p ++ (l.text ++ r₀))).1.isTrivia = true)
    (hstop : (lexeme .openDirective c (p ++ (l.text ++ r₀))).2.text.length ≤
      (c :: p).length + l.indent.length) :
    ∃ kind text q, c :: p = text ++ q ∧ WholeLines q ∧ ∀ r,
      lexeme .openDirective c (p ++ (l.text ++ r)) = (kind, ⟨text, q ++ (l.text ++ r), true⟩) := by
  rcases exists_of_isTrivia htrivia with rfl | ⟨rfl, rest, hrest⟩ | ⟨rfl, rest, hrest⟩
  · exact ⟨.newline, ['\n'], p, rfl, hp.of_append (p := ['\n']), fun r => rfl⟩
  · obtain ⟨d, p', rfl⟩ := List.exists_cons_of_ne_nil (hp.ne_nil (by decide))
    obtain ⟨rfl, -⟩ := List.cons.inj hrest
    obtain ⟨text, q, htext, hq, hcomment⟩ := lineComment_before_clause l hp
    exact ⟨.comment, text, q, htext, hq,
      fun r => congrArg (Prod.mk TokenKind.comment) (hcomment r)⟩
  · obtain ⟨d, p', rfl⟩ := List.exists_cons_of_ne_nil (hp.ne_nil (by decide))
    obtain ⟨rfl, -⟩ := List.cons.inj hrest
    have hp' : WholeLines p' := hp.of_append (p := ['/', '*'])
    obtain ⟨text, q, htext, hq, hblock⟩ := delimited_before_clause l hp' r₀ hstop
    exact ⟨.blockComment, text, q, htext, hq,
      fun r => congrArg (Prod.mk TokenKind.blockComment) (hblock r)⟩

/-! ## The whole text before the clause -/

/-- One step of the lexer before a clause: a blank is skipped, or a token without syntax is cut off
that does not depend on what follows the clause. -/
theorem tokensFrom_before_clause_cons (l : ClauseLine) {r₀ : List Char} {start line : Nat}
    (hp : WholeLines (c :: p))
    (hfirst : FirstAt (start + (c :: p).length + l.indent.length)
      (tokensFrom .openDirective start line (c :: (p ++ (l.text ++ r₀))))) :
    ∃ lead line' text q, c :: p = text ++ q ∧ text ≠ [] ∧ WholeLines q ∧
      (∀ t ∈ lead, t.isSignificant = false) ∧ ∀ r,
        tokensFrom .openDirective start line (c :: (p ++ (l.text ++ r))) =
          lead ++ tokensFrom .openDirective (start + text.length) line' (q ++ (l.text ++ r)) := by
  by_cases hgap : isGap c = true
  · refine ⟨[], line, [c], p, rfl, List.cons_ne_nil c [], hp.of_append (p := [c]), by simp, ?_⟩
    exact fun r => tokensFrom_gap hgap
  · rw [Bool.not_eq_true] at hgap
    rw [tokensFrom_lexeme hgap] at hfirst
    cases htrivia : (lexeme .openDirective c (p ++ (l.text ++ r₀))).1.isTrivia with
    | false =>
      -- the token itself would be the first with syntax, yet it stands before the clause
      rw [firstAt_cons_of_significant (by simp [Token.isSignificant, tokenAt, htrivia])] at hfirst
      simp only [tokenAt, List.length_cons] at hfirst
      omega
    | true =>
      rw [firstAt_cons_of_trivia (by simp [Token.isSignificant, tokenAt, htrivia])] at hfirst
      have hstop := hfirst.le
      obtain ⟨kind, text, q, htext, hq, hlexeme⟩ :=
        lexeme_before_clause l hp r₀ htrivia (by omega)
      have hne : text ≠ [] := by
        have := lexeme_ne_nil .openDirective c (p ++ (l.text ++ r₀))
        rwa [hlexeme r₀] at this
      rw [hlexeme r₀] at htrivia
      refine ⟨[tokenAt start line kind text true], line + text.count '\n', text, q, htext, hne,
        hq, ?_, fun r => tokensFrom_of_lexeme hgap (hlexeme r)⟩
      simpa [Token.isSignificant, tokenAt] using htrivia

/-- If the first token with syntax stands at the clause, the tokens before the clause are the same
whatever follows it. -/
theorem tokensFrom_before_clause (l : ClauseLine) (r₀ : List Char) (start line : Nat)
    (hp : WholeLines p)
    (hfirst : FirstAt (start + p.length + l.indent.length)
      (tokensFrom .openDirective start line (p ++ (l.text ++ r₀)))) :
    ∃ lead line', (∀ t ∈ lead, t.isSignificant = false) ∧ ∀ r,
      tokensFrom .openDirective start line (p ++ (l.text ++ r)) =
        lead ++ tokensFrom .openDirective (start + p.length) line' (l.text ++ r) := by
  induction hlength : p.length using Nat.strongRecOn generalizing p start line with
  | ind n ih =>
    subst hlength
    cases p with
    | nil => exact ⟨[], line, by simp, fun r => rfl⟩
    | cons c p =>
      obtain ⟨lead, line', text, q, htext, hne, hq, hlead, htokens⟩ :=
        tokensFrom_before_clause_cons l hp hfirst
      have hlength : (c :: p).length = text.length + q.length := by
        rw [htext, List.length_append]
      have hpos := List.length_pos_iff.2 hne
      rw [List.cons_append, htokens r₀, firstAt_append hlead, hlength, ← Nat.add_assoc] at hfirst
      obtain ⟨more, line'', hmore, hrest⟩ := ih q.length (by omega) _ _ hq hfirst rfl
      refine ⟨lead ++ more, line'', ?_, fun r => ?_⟩
      · intro t ht
        rcases List.mem_append.1 ht with hmem | hmem
        · exact hlead t hmem
        · exact hmore t hmem
      · rw [List.cons_append, htokens r, hrest r, hlength, List.append_assoc, Nat.add_assoc]

theorem tokensFrom_inlineSpace (h : ∀ c ∈ cs, isInlineSpace c = true) (rule : CommentRule)
    (start line : Nat) (rest : List Char) :
    tokensFrom rule start line (cs ++ rest) = tokensFrom rule (start + cs.length) line rest :=
  tokensFrom_gaps (fun c hc => isGap_of_isInlineSpace (h c hc)) rule start line rest

theorem tokensFrom_word (w : Word) {rest : List Char} (h : EndsWord rest) (rule : CommentRule)
    (start line : Nat) :
    tokensFrom rule start line (w.text ++ rest) =
      tokenAt start line .ident w.text true ::
        tokensFrom rule (start + w.text.length) (line + w.text.count '\n') rest :=
  tokensFrom_of_lexeme (isGap_eq_false_of_isWordStart w.opens) (lexeme_word w h)

private theorem endsWord_behindKeyword (l : ClauseLine) (r : List Char) :
    EndsWord (l.behindKeyword ++ r) := by
  obtain ⟨c, cs, hspace⟩ := List.exists_cons_of_ne_nil l.space_ne_nil
  have hgap := isGap_of_isInlineSpace (l.space_inline c (by simp [hspace]))
  simp [ClauseLine.behindKeyword, hspace, EndsWord, isWord_eq_false_of_isGap hgap]

theorem tokensFrom_clause (l : ClauseLine) (h : EndsWord r) (rule : CommentRule)
    (start line : Nat) :
    ∃ place line' more, tokensFrom rule start line (l.line ++ r) =
      tokenAt (start + l.indent.length) line .ident Word.ofPackage.text true ::
        tokenAt place line' .ident l.name.toWord.text true :: more := by
  have htext : l.line ++ r = l.indent ++ (Word.ofPackage.text ++ (l.behindKeyword ++ r)) := by
    simp [ClauseLine.line]
  have hbehind : l.behindKeyword ++ r = l.space ++ (l.name.toWord.text ++ (l.trailing ++ r)) := by
    simp [ClauseLine.behindKeyword]
  rw [htext, tokensFrom_inlineSpace l.indent_inline,
    tokensFrom_word Word.ofPackage (endsWord_behindKeyword l r), hbehind,
    tokensFrom_inlineSpace l.space_inline,
    tokensFrom_word l.name.toWord (endsWord_of_inlineSpace l.trailing_inline h)]
  exact ⟨_, _, _, rfl⟩

/-! ## A text around the clause -/

theorem significant_append {lead : List Token} (h : ∀ t ∈ lead, t.isSignificant = false)
    (ts : List Token) :
    (lead ++ ts).filter Token.isSignificant = ts.filter Token.isSignificant := by
  have hnone : lead.filter Token.isSignificant = [] := by
    rw [List.filter_eq_nil_iff]
    intro t ht
    rw [h t ht]
    exact Bool.false_ne_true
  rw [List.filter_append, hnone, List.nil_append]

def ClauseLine.within (l : ClauseLine) (pre post : String) : String :=
  pre ++ String.ofList l.text ++ post

def ClauseLine.offset (l : ClauseLine) (pre : String) : Nat :=
  pre.length + l.indent.length

theorem ClauseLine.toList_within (l : ClauseLine) (pre post : String) :
    (l.within pre post).toList = pre.toList ++ (l.text ++ post.toList) := by
  simp [within, String.toList_append]

theorem tokens_within (l : ClauseLine) {pre post₀ : String} (hpre : WholeLines pre.toList)
    (hfirst : FirstAt (l.offset pre) (tokens (l.within pre post₀))) :
    ∃ lead, (∀ t ∈ lead, t.isSignificant = false) ∧ ∀ post, ∃ line place line' more,
      tokens (l.within pre post) =
        lead ++ tokenAt (l.offset pre) line .ident Word.ofPackage.text true ::
          tokenAt place line' .ident l.name.toWord.text true :: more := by
  rw [tokens, l.toList_within] at hfirst
  obtain ⟨lead, line, hlead, htokens⟩ := tokensFrom_before_clause l post₀.toList 0 1 hpre
    (by simpa only [ClauseLine.offset, String.length_toList, Nat.zero_add] using hfirst)
  refine ⟨lead, hlead, fun post => ?_⟩
  obtain ⟨place, line', more, hclause⟩ := tokensFrom_clause l (r := '\n' :: post.toList) rfl
    .openDirective (0 + pre.toList.length) line
  refine ⟨line, place, line', more, ?_⟩
  rw [tokens, l.toList_within, htokens, ClauseLine.text, List.append_assoc,
    List.singleton_append, hclause, Nat.zero_add, String.length_toList]
  rfl

theorem clauseOffset?_of_tokens {source : String} {l : ClauseLine} {lead more : List Token}
    {offset line place line' : Nat} (hlead : ∀ t ∈ lead, t.isSignificant = false)
    (h : tokens source = lead ++ tokenAt offset line .ident Word.ofPackage.text true ::
      tokenAt place line' .ident l.name.toWord.text true :: more) :
    clauseOffset? source = some offset := by
  have hname : Token.isName (tokenAt place line' .ident l.name.toWord.text true) = true := by
    change (true && !isKeyword (String.ofList (l.name.first :: l.name.more))) = true
    rw [l.name.free]
    rfl
  have hkeyword : Token.is (tokenAt offset line .ident Word.ofPackage.text true) .ident
      "package" = true := by
    rfl
  rw [clauseOffset?, significantTokens, h, significant_append hlead,
    List.filter_cons_of_pos rfl, List.filter_cons_of_pos rfl, clause?, hkeyword, hname]
  rfl

end ImportSurvey.Source
