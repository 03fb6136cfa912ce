import ImportSurvey.Source.Lexer
/-!
# Token streams

Where the tokens of a text stand. A stream does not depend on where its text begins except for the
offsets and lines in it, its tokens follow one another without overlap, and every character that is
not a blank lies in one of them. A token that is neither a comment nor a line end is settled by the
text from its first character on, whatever rule the comments obey.
-/

namespace ImportSurvey.Source

open Text

variable {rule : CommentRule} {start line : Nat} {c : Char} {cs pre rest : List Char}
  {t u : Token}

def tokenAt (start line : Nat) (kind : TokenKind) (text : List Char) (closed : Bool) : Token :=
  ⟨kind, String.ofList text, start, start + text.length, line, closed⟩

/-! ## One step -/

@[simp] theorem tokensFrom_nil : tokensFrom rule start line [] = [] := by
  rw [tokensFrom]

theorem tokensFrom_gap (h : isGap c = true) :
    tokensFrom rule start line (c :: cs) = tokensFrom rule (start + 1) line cs := by
  rw [tokensFrom, if_pos h]

theorem tokensFrom_lexeme (h : isGap c = false) :
    tokensFrom rule start line (c :: cs) =
      tokenAt start line (lexeme rule c cs).1 (lexeme rule c cs).2.text
          (lexeme rule c cs).2.closed ::
        tokensFrom rule (start + (lexeme rule c cs).2.text.length)
          (line + (lexeme rule c cs).2.text.count '\n') (lexeme rule c cs).2.rest := by
  rw [tokensFrom, if_neg (by simp [h])]
  rfl

theorem tokensFrom_of_lexeme {kind : TokenKind} {text : List Char} {closed : Bool}
    (hgap : isGap c = false) (h : lexeme rule c cs = (kind, ⟨text, rest, closed⟩)) :
    tokensFrom rule start line (c :: cs) =
      tokenAt start line kind text closed ::
        tokensFrom rule (start + text.length) (line + text.count '\n') rest := by
  rw [tokensFrom_lexeme hgap, h]

theorem ne_newline_of_isGap (h : isGap c = true) : c ≠ '\n' := by
  rintro rfl
  exact absurd h (by decide)

theorem tokensFrom_gaps (h : ∀ c ∈ cs, isGap c = true) (rule : CommentRule) (start line : Nat)
    (rest : List Char) :
    tokensFrom rule start line (cs ++ rest) = tokensFrom rule (start + cs.length) line rest := by
  induction cs generalizing start with
  | nil => rfl
  | cons c cs ih =>
    rw [List.cons_append, tokensFrom_gap (h c (by simp)),
      ih (fun d hd => h d (List.mem_cons_of_mem _ hd)), List.length_cons, Nat.add_assoc,
      Nat.add_comm 1]

theorem tokensFrom_shift (rule : CommentRule) (start line chars lines : Nat) (cs : List Char) :
    tokensFrom rule (start + chars) (line + lines) cs =
      (tokensFrom rule start line cs).map (Token.shift chars lines) := by
  fun_induction tokensFrom rule start line cs with
  | case1 => simp
  | case2 start line c cs hgap ih =>
    rw [tokensFrom_gap hgap, ← ih, Nat.add_right_comm]
  | case3 start line c cs hgap hlt lexed stop ih =>
    rw [tokensFrom_lexeme (by simpa using hgap), List.map_cons, ← ih]
    have hstop : start + chars + lexed.2.text.length = stop + chars := by omega
    have hline : line + lines + lexed.2.text.count '\n' =
        line + lexed.2.text.count '\n' + lines := by omega
    change tokenAt (start + chars) (line + lines) lexed.1 lexed.2.text lexed.2.closed ::
      tokensFrom rule (start + chars + lexed.2.text.length)
        (line + lines + lexed.2.text.count '\n') lexed.2.rest = _
    rw [hstop, hline]
    simp only [tokenAt, Token.shift, hstop]

theorem significant_shift (rule : CommentRule) (start line chars lines : Nat) (cs : List Char) :
    (tokensFrom rule (start + chars) (line + lines) cs).filter Token.isSignificant =
      ((tokensFrom rule start line cs).filter Token.isSignificant).map
        (Token.shift chars lines) := by
  rw [tokensFrom_shift, List.filter_map]
  rfl

/-! ## Order -/

theorem le_start_of_mem (h : t ∈ tokensFrom rule start line cs) : start ≤ t.start := by
  fun_induction tokensFrom rule start line cs with
  | case1 => simp at h
  | case2 start line c cs hgap ih =>
    have := ih h
    omega
  | case3 start line c cs hgap hlt lexed stop ih =>
    rcases List.mem_cons.1 h with rfl | hmem
    · exact Nat.le_refl _
    · have := ih hmem
      omega

theorem pairwise_stop_le_start (rule : CommentRule) (start line : Nat) (cs : List Char) :
    (tokensFrom rule start line cs).Pairwise fun t u => t.stop ≤ u.start := by
  fun_induction tokensFrom rule start line cs with
  | case1 => exact .nil
  | case2 start line c cs hgap ih => exact ih
  | case3 start line c cs hgap hlt lexed stop ih =>
    exact List.pairwise_cons.2 ⟨fun u hu => le_start_of_mem hu, ih⟩

theorem eq_or_apart (ht : t ∈ tokensFrom rule start line cs)
    (hu : u ∈ tokensFrom rule start line cs) : t = u ∨ t.stop ≤ u.start ∨ u.stop ≤ t.start := by
  have hpair := pairwise_stop_le_start rule start line cs
  generalize tokensFrom rule start line cs = ts at ht hu hpair
  induction hpair with
  | nil => simp at ht
  | cons hfirst _ ih =>
    rcases List.mem_cons.1 ht with rfl | ht'
    · rcases List.mem_cons.1 hu with rfl | hu'
      · exact .inl rfl
      · exact .inr (.inl (hfirst u hu'))
    · rcases List.mem_cons.1 hu with rfl | hu'
      · exact .inr (.inr (hfirst t ht'))
      · exact ih ht' hu'

/-! ## Places -/

/-- A token is the lexeme that begins where its text stands, and from there on the stream is that of
the text from there on. -/
theorem exists_stream_of_mem (h : t ∈ tokensFrom rule start line cs) :
    ∃ lead pre c rest, cs = pre ++ c :: rest ∧ isGap c = false ∧
      t = tokenAt (start + pre.length) (line + pre.count '\n') (lexeme rule c rest).1
        (lexeme rule c rest).2.text (lexeme rule c rest).2.closed ∧
      tokensFrom rule start line cs =
        lead ++ tokensFrom rule (start + pre.length) (line + pre.count '\n') (c :: rest) := by
  fun_induction tokensFrom rule start line cs with
  | case1 => simp at h
  | case2 start line c cs hgap ih =>
    obtain ⟨lead, pre, d, rest, rfl, hd, rfl, hstream⟩ := ih h
    refine ⟨lead, c :: pre, d, rest, rfl, hd, ?_⟩
    rw [List.length_cons, List.count_cons_of_ne (ne_newline_of_isGap hgap), hstream,
      Nat.add_assoc, Nat.add_comm 1]
    exact ⟨rfl, rfl⟩
  | case3 start line c cs hgap hlt lexed stop ih =>
    rcases List.mem_cons.1 h with rfl | hmem
    · refine ⟨[], [], c, cs, rfl, by simpa using hgap, rfl, ?_⟩
      exact (tokensFrom_lexeme (by simpa using hgap)).symm
    · obtain ⟨lead, pre, d, rest, hrest, hd, rfl, hstream⟩ := ih hmem
      have happend := lexeme_append rule c cs
      refine ⟨tokenAt start line lexed.1 lexed.2.text lexed.2.closed :: lead, lexed.2.text ++ pre,
        d, rest, ?_, hd, ?_, ?_⟩
      · rw [← happend, List.append_assoc, ← hrest]
      · rw [List.length_append, List.count_append, ← Nat.add_assoc, ← Nat.add_assoc]
      · rw [List.length_append, List.count_append, ← Nat.add_assoc, ← Nat.add_assoc, hstream]
        rfl

theorem exists_split_of_mem (h : t ∈ tokensFrom rule start line cs) :
    ∃ pre c rest, cs = pre ++ c :: rest ∧ isGap c = false ∧
      t = tokenAt (start + pre.length) (line + pre.count '\n') (lexeme rule c rest).1
        (lexeme rule c rest).2.text (lexeme rule c rest).2.closed := by
  obtain ⟨-, pre, c, rest, hsplit, hgap, htoken, -⟩ := exists_stream_of_mem h
  exact ⟨pre, c, rest, hsplit, hgap, htoken⟩

theorem start_lt_stop (h : t ∈ tokensFrom rule start line cs) : t.start < t.stop := by
  obtain ⟨pre, c, rest, -, -, rfl⟩ := exists_split_of_mem h
  exact Nat.lt_add_of_pos_right (List.length_pos_iff.2 (lexeme_ne_nil rule c rest))

theorem start_lt_of_mem (h : t ∈ tokensFrom rule start line cs) : t.start < start + cs.length := by
  obtain ⟨pre, c, rest, rfl, -, rfl⟩ := exists_split_of_mem h
  simp [tokenAt]

private theorem exists_covering (hgap : isGap c = false) :
    ∀ pre, cs = pre ++ c :: rest → ∃ t ∈ tokensFrom rule start line cs,
      t.start ≤ start + pre.length ∧ start + pre.length < t.stop := by
  fun_induction tokensFrom rule start line cs with
  | case1 =>
    intro pre h
    simp at h
  | case2 start line d cs hd ih =>
    intro pre h
    cases pre with
    | nil =>
      rw [List.nil_append, List.cons.injEq] at h
      rw [h.1, hgap] at hd
      contradiction
    | cons e pre =>
      rw [List.cons_append, List.cons.injEq] at h
      obtain ⟨t, ht, hstart, hstop⟩ := ih pre h.2
      refine ⟨t, ht, ?_, ?_⟩
      all_goals (rw [List.length_cons]; omega)
  | case3 start line d cs hd hlt lexed stop ih =>
    intro pre h
    have happend : lexed.2.text ++ lexed.2.rest = d :: cs := lexeme_append rule d cs
    by_cases hlen : pre.length < lexed.2.text.length
    · exact ⟨_, List.mem_cons_self, Nat.le_add_right _ _, Nat.add_lt_add_left hlen start⟩
    · have hle : lexed.2.text.length ≤ pre.length := Nat.le_of_not_lt hlen
      obtain ⟨pre', rfl⟩ : lexed.2.text <+: pre :=
        List.prefix_of_prefix_length_le (happend ▸ List.prefix_append _ _)
          (h ▸ List.prefix_append _ _) hle
      have hrest : lexed.2.rest = pre' ++ c :: rest := by
        rw [← happend, List.append_assoc] at h
        exact List.append_cancel_left h
      obtain ⟨t, ht, hstart, hstop⟩ := ih pre' hrest
      refine ⟨t, List.mem_cons_of_mem _ ht, ?_, ?_⟩
      all_goals (rw [List.length_append]; omega)

/-- Every character that is not a blank lies in a token. -/
theorem exists_mem_of_split (h : cs = pre ++ c :: rest) (hgap : isGap c = false) :
    ∃ t ∈ tokensFrom rule start line cs, t.start ≤ start + pre.length ∧
      start + pre.length < t.stop :=
  exists_covering hgap pre h

/-! ## Tokens with syntax -/

def FirstAt (n : Nat) (ts : List Token) : Prop :=
  ∃ t, ts.find? Token.isSignificant = some t ∧ t.start = n

theorem firstAt_cons_of_significant (h : t.isSignificant = true) (n : Nat) (ts : List Token) :
    FirstAt n (t :: ts) ↔ t.start = n := by
  simp [FirstAt, h]

theorem firstAt_cons_of_trivia (h : t.isSignificant = false) (n : Nat) (ts : List Token) :
    FirstAt n (t :: ts) ↔ FirstAt n ts := by
  simp [FirstAt, h]

theorem firstAt_append {lead : List Token} (h : ∀ t ∈ lead, t.isSignificant = false) (n : Nat)
    (ts : List Token) : FirstAt n (lead ++ ts) ↔ FirstAt n ts := by
  induction lead with
  | nil => exact Iff.rfl
  | cons t lead ih =>
    rw [List.cons_append, firstAt_cons_of_trivia (h t (by simp)),
      ih fun u hu => h u (List.mem_cons_of_mem _ hu)]

theorem FirstAt.le {n : Nat} (h : FirstAt n (tokensFrom rule start line cs)) : start ≤ n := by
  obtain ⟨t, hfind, rfl⟩ := h
  exact le_start_of_mem (List.mem_of_find?_eq_some hfind)

theorem FirstAt.unique {ts : List Token} {m n : Nat} (hm : FirstAt m ts) (hn : FirstAt n ts) :
    m = n := by
  obtain ⟨t, ht, rfl⟩ := hm
  obtain ⟨u, hu, rfl⟩ := hn
  rw [ht, Option.some.injEq] at hu
  rw [hu]

/-- Only comments depend on how far comments reach. -/
theorem lexeme_eq_of_significant (rule' : CommentRule)
    (h : (lexeme rule c cs).1.isTrivia = false) : lexeme rule' c cs = lexeme rule c cs := by
  by_cases hslashes : (c == '/' && cs.head? == some '/') = true
  · have hslash : c = '/' := by
      rw [Bool.and_eq_true, beq_iff_eq] at hslashes
      exact hslashes.1
    have hcomment : (lexeme rule c cs).1 = .comment := by
      rw [lexeme, if_neg (by rw [hslash]; decide), if_pos hslashes]
    rw [hcomment] at h
    contradiction
  · rw [lexeme, lexeme, if_neg hslashes, if_neg hslashes]

end ImportSurvey.Source
