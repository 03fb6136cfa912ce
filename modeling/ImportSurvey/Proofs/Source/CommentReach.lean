import ImportSurvey.Proofs.Source.SettledHead
import ImportSurvey.Proofs.Source.WrittenClause
/-!
# How far comments reach

The head of a file with directives that run beyond their line, and the head it would have if every
comment ended with its line. They are the same where no such directive covers syntax that the head
is read from. A clause whose line ends behind it is never covered by a directive above it, but one
that is followed by a carriage return or by more than a semicolon is, and so are imports.
-/

namespace ImportSurvey.Source

open Text

variable {rule rule' : CommentRule} {start line n : Nat} {cs : List Char} {t u : Token}

/-! ## The first token with syntax -/

/-- A token with syntax that begins where another begins is that token, whatever the rules. -/
theorem eq_of_start_eq (ht : t ∈ tokensFrom rule start line cs)
    (hu : u ∈ tokensFrom rule' start line cs) (hsignificant : t.isSignificant = true)
    (hstart : u.start = t.start) : u = t := by
  obtain ⟨pre, c, rest, hsplit, -, rfl⟩ := exists_split_of_mem ht
  obtain ⟨pre', d, rest', hsplit', -, rfl⟩ := exists_split_of_mem hu
  have hlength : pre'.length = pre.length := Nat.add_left_cancel hstart
  have hsame := List.append_inj (hsplit'.symm.trans hsplit) hlength
  obtain ⟨rfl, hcons⟩ := hsame
  obtain ⟨rfl, rfl⟩ := List.cons.inj hcons
  have htrivia : (lexeme rule d rest').1.isTrivia = false := by
    simpa [Token.isSignificant, tokenAt] using hsignificant
  rw [lexeme_eq_of_significant rule' htrivia]

/-- The first token with syntax, what stands before it, and what begins no earlier than it ends. -/
private theorem FirstAt.exists_split (h : FirstAt n (tokensFrom rule start line cs)) :
    ∃ lead t later, tokensFrom rule start line cs = lead ++ t :: later ∧
      t.isSignificant = true ∧ t.start = n ∧ (∀ u ∈ lead, u.isSignificant = false) ∧
      ∀ u ∈ later, t.stop ≤ u.start := by
  obtain ⟨t, hfind, hstart⟩ := h
  obtain ⟨hsignificant, lead, later, heq, hlead⟩ := List.find?_eq_some_iff_append.1 hfind
  have hpair := pairwise_stop_le_start rule start line cs
  rw [heq] at hpair
  exact ⟨lead, t, later, heq, hsignificant, hstart, fun u hu => by simpa using hlead u hu,
    (List.pairwise_cons.1 (List.pairwise_append.1 hpair).2.1).1⟩

theorem FirstAt.le_start (h : FirstAt n (tokensFrom rule start line cs))
    (hu : u ∈ tokensFrom rule start line cs) (hsignificant : u.isSignificant = true) :
    n ≤ u.start := by
  obtain ⟨lead, t, later, heq, -, rfl, hlead, hlater⟩ := h.exists_split
  have hlt : t.start < t.stop := start_lt_stop (by rw [heq]; simp)
  rw [heq] at hu
  rcases List.mem_append.1 hu with hbefore | hrest
  · rw [hlead u hbefore] at hsignificant
    contradiction
  · rcases List.mem_cons.1 hrest with rfl | hbehind
    · exact Nat.le_refl _
    · have := hlater u hbehind
      omega

theorem significantBefore_of_firstAt (h : FirstAt n (tokensFrom rule start line cs)) :
    ∃ t ∈ tokensFrom rule start line cs, t.isSignificant = true ∧ t.start = n ∧
      significantBefore (n + 1) (tokensFrom rule start line cs) = [t] := by
  obtain ⟨lead, t, later, heq, hsignificant, rfl, hlead, hlater⟩ := h.exists_split
  have hmem : t ∈ tokensFrom rule start line cs := by
    rw [heq]
    simp
  have hlt := start_lt_stop hmem
  have hnone : significantBefore (t.start + 1) lead = [] :=
    significantBefore_eq_nil fun u hu hu' => by simp [hlead u hu] at hu'
  have hnone' : significantBefore (t.start + 1) later = [] := by
    apply significantBefore_eq_nil
    intro u hu _ hn
    have := hlater u hu
    omega
  refine ⟨t, hmem, hsignificant, rfl, ?_⟩
  calc significantBefore (t.start + 1) (tokensFrom rule start line cs)
      = significantBefore (t.start + 1) (lead ++ t :: later) := by rw [heq]
    _ = significantBefore (t.start + 1) lead ++ significantBefore (t.start + 1) (t :: later) :=
        List.filter_append ..
    _ = significantBefore (t.start + 1) (t :: later) := by rw [hnone, List.nil_append]
    _ = t :: significantBefore (t.start + 1) later :=
        List.filter_cons_of_pos (by simp [hsignificant])
    _ = [t] := by rw [hnone']

theorem significant_eq_append (rule : CommentRule) (start line n : Nat) (cs : List Char) :
    ∃ more, (tokensFrom rule start line cs).filter Token.isSignificant =
      significantBefore n (tokensFrom rule start line cs) ++ more := by
  have hpair := pairwise_stop_le_start rule start line cs
  have hlt : ∀ t ∈ tokensFrom rule start line cs, t.start < t.stop := fun t ht => start_lt_stop ht
  generalize tokensFrom rule start line cs = ts at hpair hlt
  induction hpair with
  | nil => exact ⟨[], rfl⟩
  | @cons t ts hfirst _ ih =>
    obtain ⟨more, hmore⟩ := ih fun u hu => hlt u (List.mem_cons_of_mem _ hu)
    by_cases hn : t.start < n
    · refine ⟨more, ?_⟩
      by_cases hsignificant : t.isSignificant = true
      · simp [significantBefore, hsignificant, hn, hmore]
      · simp [significantBefore, hsignificant, hmore]
    · refine ⟨(t :: ts).filter Token.isSignificant, ?_⟩
      have hnone : significantBefore n (t :: ts) = [] := by
        apply significantBefore_eq_nil
        intro u hu _ hlt'
        rcases List.mem_cons.1 hu with rfl | hmem
        · omega
        · have hle := hfirst u hmem
          have := hlt t List.mem_cons_self
          omega
      rw [hnone, List.nil_append]

/-- Under two rules the first token with syntax is the same if all syntax up to there is. -/
theorem firstAt_iff (h : FirstAt n (tokensFrom rule' start line cs)) :
    FirstAt n (tokensFrom rule start line cs) ↔
      significantBefore (n + 1) (tokensFrom rule start line cs) =
        significantBefore (n + 1) (tokensFrom rule' start line cs) := by
  obtain ⟨t, ht, hsignificant, hn, hsingle⟩ := significantBefore_of_firstAt h
  rw [hsingle]
  constructor
  · intro hfirst
    obtain ⟨u, hu, -, hn', hsingle'⟩ := significantBefore_of_firstAt hfirst
    rw [hsingle', eq_of_start_eq ht hu hsignificant (hn'.trans hn.symm)]
  · intro hsingle'
    obtain ⟨more, hmore⟩ := significant_eq_append rule start line (n + 1) cs
    refine ⟨t, ?_, hn⟩
    rw [← List.head?_filter, hmore, hsingle']
    rfl

theorem significantBefore_length (rule : CommentRule) (cs : List Char) (hn : cs.length ≤ n) :
    significantBefore n (tokensFrom rule 0 line cs) =
      (tokensFrom rule 0 line cs).filter Token.isSignificant := by
  apply List.filter_congr
  intro t ht
  have hstart := start_lt_of_mem ht
  have hlt : t.start < n := by omega
  simp [hlt]

/-! ## A clause and the directives around it -/

def ClauseLine.unindented (l : ClauseLine) : ClauseLine :=
  { l with indent := [], indent_inline := by simp }

theorem ClauseLine.indent_append_unindented (l : ClauseLine) :
    l.indent ++ l.unindented.line = l.line :=
  rfl

namespace WrittenClause

variable {w : WrittenClause} {body : List Char} {k : Nat}

/-- A directive above a clause that ends its line does not run beyond the clause. -/
theorem overrun?_le (hends : w.follower.EndsLine) (ht : t ∈ tokensFrom .ownLine 0 1 w.text)
    (habove : t.stop ≤ w.offset) (hk : overrun? w.text t = some k) : k ≤ w.offset := by
  obtain ⟨body, hblock, hline, rfl⟩ := overrun?_eq_some.1 hk
  refine Nat.le_of_not_lt fun hlt => hline ?_
  exact ⟨w.ownLine, w.ownLine_mem_linesBelow ht habove hblock hlt, w.isClauseLine_ownLine.2 hends⟩

/-- Behind a clause that ends its line, and is the first syntax of its text, only directives behind
it can run over syntax. -/
theorem sparesCode (hends : w.follower.EndsLine)
    (hfirst : FirstAt w.offset (tokensFrom .ownLine 0 1 w.text))
    (hbelow : ∀ t ∈ tokensFrom .ownLine 0 1 w.text, w.offset < t.start → t.start < n →
      overrun? w.text t = none) :
    SparesCode n w.text (tokensFrom .ownLine 0 1 w.text) := by
  intro t ht k hk u hu hsignificant hn hstop
  have hoffset := hfirst.le_start hu hsignificant
  have hlt := start_lt_stop ht
  rcases Nat.lt_or_ge w.offset t.start with hbehind | habove
  · rw [hbelow t ht hbehind (by omega)] at hk
    contradiction
  · obtain ⟨s, hs, hs', hplace, -⟩ := significantBefore_of_firstAt hfirst
    have hcomment : t.isSignificant = false := by
      obtain ⟨body, hblock, -⟩ := overrun?_eq_some.1 hk
      simp [Token.isSignificant, (openBlock?_eq_some.1 hblock).1.1, TokenKind.isTrivia]
    have hwidth := start_lt_stop hs
    rcases eq_or_apart ht hs with rfl | hbefore | hafter
    · rw [hs'] at hcomment
      contradiction
    · have := overrun?_le hends ht (by omega) hk
      omega
    · omega

/-- A directive above a clause that does not end its line runs beyond the clause, if its block does
and no other line holds a clause. -/
theorem offset_lt_overrun? (hopen : ¬ w.follower.EndsLine)
    (hblock : openBlock? w.text t = some body) (hreach : w.offset < t.stop + body.length + 2)
    (honly : ∀ line ∈ linesBelow body, IsClauseLine line → line = w.ownLine) :
    ∃ k, overrun? w.text t = some k ∧ w.offset < k := by
  refine ⟨_, overrun?_eq_some.2 ⟨body, hblock, ?_, rfl⟩, hreach⟩
  rintro ⟨line, hline, hclause⟩
  rw [honly line hline hclause, w.isClauseLine_ownLine] at hclause
  exact hopen hclause

theorem clauseOffset?_eq {source : String} (hsource : w.text = source.toList)
    (hfirst : FirstAt w.offset (tokens source)) : clauseOffset? source = some w.offset := by
  obtain ⟨t, ht, hsignificant, hoffset, -⟩ := significantBefore_of_firstAt hfirst
  obtain ⟨lead, pre, c, rest, hsplit, -, htoken, hstream⟩ := exists_stream_of_mem ht
  have hlength : pre.length = w.offset := by
    rw [← hoffset, htoken]
    exact (Nat.zero_add _).symm
  have hclause : c :: rest = w.line.unindented.line ++ w.follower.text := by
    have htext : w.text =
        (w.above ++ w.line.indent) ++ (w.line.unindented.line ++ w.follower.text) := by
      rw [text, ← w.line.indent_append_unindented]
      simp
    rw [hsource, hsplit] at htext
    refine (List.append_inj htext ?_).2
    rw [hlength, offset, List.length_append]
  have hword : EndsWord w.follower.text := by
    cases w.follower <;> rfl
  obtain ⟨place, line', more, htokens⟩ := tokensFrom_clause w.line.unindented hword .openDirective
    (0 + pre.length) (1 + pre.count '\n')
  rw [hclause, htokens, Nat.zero_add, hlength] at hstream
  refine clauseOffset?_of_tokens (l := w.line) (fun u hu => ?_) hstream
  have hmem : u ∈ tokensFrom .openDirective 0 1 source.toList :=
    hstream ▸ List.mem_append_left _ hu
  have hpair := pairwise_stop_le_start .openDirective 0 1 source.toList
  rw [hstream] at hpair
  have hbefore : u.stop ≤ w.offset :=
    (List.pairwise_append.1 hpair).2.2 u hu _ List.mem_cons_self
  rw [Bool.eq_false_iff]
  intro hsignificant'
  have := hfirst.le_start hmem hsignificant'
  have := start_lt_stop hmem
  omega

end WrittenClause

/-! ## The head -/

/-- The head of a file if no comment reached beyond its line. -/
def plainHead? (source : String) : Option Head :=
  Head.ofTokens? ((plainTokens source).filter Token.isSignificant)

theorem head?_eq_of_significantBefore {source : String}
    (hsame : significantBefore n (tokens source) = significantBefore n (plainTokens source))
    (hread : source.length ≤ n ∨ SettlesHead (significantBefore n (plainTokens source))) :
    head? source = plainHead? source := by
  rcases hread with hlength | hsettled
  · rw [← String.length_toList] at hlength
    rw [tokens, significantBefore_length .openDirective source.toList hlength, plainTokens,
      significantBefore_length .ownLine source.toList hlength] at hsame
    exact congrArg Head.ofTokens? hsame
  · obtain ⟨more, hmore⟩ := significant_eq_append .openDirective 0 1 n source.toList
    obtain ⟨plainMore, hplain⟩ := significant_eq_append .ownLine 0 1 n source.toList
    change _ = significantBefore n (tokens source) ++ more at hmore
    rw [hsame] at hmore
    calc head? source
        = Head.ofTokens? (significantBefore n (plainTokens source) ++ more) :=
          congrArg Head.ofTokens? hmore
      _ = Head.ofTokens? (significantBefore n (plainTokens source) ++ plainMore) := by
          rw [hsettled more, hsettled plainMore]
      _ = plainHead? source := (congrArg Head.ofTokens? hplain).symm

theorem firstAt_of_ofTokens? {ts : List Token} {head : Head}
    (h : Head.ofTokens? (ts.filter Token.isSignificant) = some head) : FirstAt head.offset ts := by
  obtain ⟨⟨clause, rest⟩, hclause, hrest⟩ := Option.bind_eq_some_iff.1 h
  obtain ⟨imports, -, rfl⟩ := Option.map_eq_some_iff.1 hrest
  unfold clause? at hclause
  split at hclause
  · rename_i keyword name more hts
    split at hclause
    · obtain ⟨rfl, rfl⟩ := Prod.mk.inj (Option.some.inj hclause)
      refine ⟨keyword, ?_, rfl⟩
      rw [← List.head?_filter, hts]
      rfl
    · contradiction
  · contradiction

/-- What directives that run beyond their line leave of the head of a file, where they leave nothing
behind of the comments they end in. The syntax before an offset is that of the plain stream exactly
if they spare it, and then the head is, if it is settled before that offset. They spare a clause
below them that ends its line, and all behind it if none stands there. A clause that does not end
its line is lost to a directive whose block ends behind it, unless another line stops it. -/
theorem head?_eq_plainHead? (source : String) (n : Nat)
    (hrest : LeavesNoRest n source.toList (plainTokens source)) :
    (significantBefore n (tokens source) = significantBefore n (plainTokens source) ↔
        SparesCode n source.toList (plainTokens source)) ∧
      (SparesCode n source.toList (plainTokens source) →
        source.length ≤ n ∨ SettlesHead (significantBefore n (plainTokens source)) →
        head? source = plainHead? source) ∧
      ∀ w : WrittenClause, w.text = source.toList → w.offset < n →
        FirstAt w.offset (plainTokens source) →
        (w.follower.EndsLine → clauseOffset? source = some w.offset ∧
          ((∀ t ∈ plainTokens source, w.offset < t.start → t.start < n →
              overrun? source.toList t = none) →
            SparesCode n source.toList (plainTokens source))) ∧
        (¬ w.follower.EndsLine → ∀ t ∈ plainTokens source, t.stop ≤ w.offset →
          ∀ body ∈ openBlock? source.toList t, w.offset < t.stop + body.length + 2 →
          (∀ line ∈ linesBelow body, IsClauseLine line → line = w.ownLine) →
          ∀ head ∈ plainHead? source, head? source ≠ some head) := by
  have hiff : ∀ m, m ≤ n →
      (significantBefore m (tokens source) = significantBefore m (plainTokens source) ↔
        SparesCode m source.toList (plainTokens source)) :=
    fun m hm => significantBefore_eq_iff m source.toList 0 1 (hrest.mono hm)
  refine ⟨hiff n (Nat.le_refl n), fun hspares hread => ?_, fun w hsource hn hfirst => ⟨?_, ?_⟩⟩
  · exact head?_eq_of_significantBefore ((hiff n (Nat.le_refl n)).2 hspares) hread
  · intro hends
    have hfirst' : FirstAt w.offset (tokensFrom .ownLine 0 1 w.text) := hsource ▸ hfirst
    have hspares : SparesCode (w.offset + 1) w.text (tokensFrom .ownLine 0 1 w.text) :=
      WrittenClause.sparesCode hends hfirst' fun t _ hlt hle => by omega
    rw [hsource] at hspares
    have hsame := (hiff (w.offset + 1) hn).2 hspares
    refine ⟨WrittenClause.clauseOffset?_eq hsource ((firstAt_iff hfirst).2 hsame), fun hbelow => ?_⟩
    rw [plainTokens, ← hsource] at hbelow ⊢
    exact WrittenClause.sparesCode hends hfirst' hbelow
  · intro hopen t ht habove body hblock hreach honly head hplain hhead
    rw [← hsource] at hblock
    obtain ⟨k, hk, hlt⟩ := WrittenClause.offset_lt_overrun? hopen hblock hreach honly
    -- a head that is still found would begin at the clause, which is covered
    have hoffset := (firstAt_of_ofTokens? hplain).unique hfirst
    have hfound : FirstAt w.offset (tokens source) := hoffset ▸ firstAt_of_ofTokens? hhead
    have hspares := (hiff (w.offset + 1) hn).1 ((firstAt_iff hfirst).1 hfound)
    obtain ⟨u, hu, hsignificant, hplace, -⟩ := significantBefore_of_firstAt hfirst
    rw [hsource] at hk
    have := hspares t ht k hk u hu hsignificant (by omega) (by omega)
    omega

/-- The first directive ends with the comment below it, the clause stops the second one, and the
third one comes too late. Before a carriage return the clause stops none. -/
theorem head?_eq_plainHead?_open_directive :
    head? "// +build a /*\n/**/\n// +build b /*\npackage p //\nvar v T\n// +build d /*\n/**/" =
        plainHead? "// +build a /*\n/**/\n// +build b /*\npackage p //\nvar v T\n// +build d /*\n/**/" ∧
      ∀ head ∈ plainHead? "// +build a /* x\npackage p\r\n/* d */\n",
        head? "// +build a /* x\npackage p\r\n/* d */\n" ≠ some head := by
  constructor
  · have htokens : significantBefore 49
        (plainTokens "// +build a /*\n/**/\n// +build b /*\npackage p //\nvar v T\n// +build d /*\n/**/") =
        [⟨.ident, "package", 35, 42, 4, true⟩, ⟨.ident, "p", 43, 44, 4, true⟩] ++
          [⟨.ident, "var", 48, 51, 5, true⟩] := by
      decide +kernel
    have hhead : Head.ofTokens?
        [⟨.ident, "package", 35, 42, 4, true⟩, ⟨.ident, "p", 43, 44, 4, true⟩] =
        some ⟨"p", 35, []⟩ := by
      decide +kernel
    have h := head?_eq_plainHead?
      "// +build a /*\n/**/\n// +build b /*\npackage p //\nvar v T\n// +build d /*\n/**/" 49
      (by decide +kernel)
    have hclause := h.2.2 ⟨"// +build a /*\n/**/\n// +build b /*\n".toList,
      ⟨[], [' '], ⟨⟨'p', [], by decide, by simp⟩, by decide⟩, [' '], by simp,
        by simp [isInlineSpace], by simp, by simp [isInlineSpace]⟩,
      .lineComment "\nvar v T\n// +build d /*\n/**/".toList, by simp [WholeLines]⟩
      (by decide +kernel) (by decide) ⟨⟨.ident, "package", 35, 42, 4, true⟩, by decide +kernel, rfl⟩
    apply h.2.1 ((hclause.1 trivial).2 (by decide +kernel))
    rw [htokens]
    exact .inr (settlesHead_concat hhead (by decide) (by decide))
  · have h := head?_eq_plainHead? "// +build a /* x\npackage p\r\n/* d */\n" 36 (by decide +kernel)
    have hclause := h.2.2 ⟨"// +build a /* x\n".toList,
      ⟨[], [' '], ⟨⟨'p', [], by decide, by simp⟩, by decide⟩, [], by simp,
        by simp [isInlineSpace], by simp, by simp⟩,
      .carriageReturn "\n/* d */\n".toList, by simp [WholeLines]⟩
      (by decide +kernel) (by decide) ⟨⟨.ident, "package", 17, 24, 2, true⟩, by decide +kernel, rfl⟩
    exact hclause.2 id ⟨.comment, "// +build a /* x", 0, 16, 1, true⟩ (by decide +kernel)
      (by decide) "\npackage p\r\n/* d ".toList (by decide +kernel) (by decide) (by decide +kernel)

/-- A directive that leaves a block open hides the clause where the line of the clause ends with a
carriage return, hides imports where it stands behind the clause, and uncovers what stands behind
the end of its block in another comment. -/
theorem head?_ne_plainHead? :
    plainHead? "// +build linux /* note\r\npackage p\r\nimport \"a\"\r\n/* c */\r\n" =
        some ⟨"p", 25, ["a"]⟩ ∧
      head? "// +build linux /* note\r\npackage p\r\nimport \"a\"\r\n/* c */\r\n" = none ∧
      plainHead? "package p\n// +build x /* note\nimport \"a\"\n/* c */\n" =
        some ⟨"p", 0, ["a"]⟩ ∧
      head? "package p\n// +build x /* note\nimport \"a\"\n/* c */\n" = some ⟨"p", 0, []⟩ ∧
      plainHead? "// +build x /* a\n// b */ c\npackage p\n" = some ⟨"p", 27, []⟩ ∧
      head? "// +build x /* a\n// b */ c\npackage p\n" = none := by
  decide +kernel

end ImportSurvey.Source
