import ImportSurvey.Proofs.Source.PackageLine
import ImportSurvey.Proofs.Source.Stream
/-!
# Comments that run beyond their line

The streams of one text under both comment rules. They part only at a directive that leaves a block
open and meets no line with a package clause before the end of that block. Where the block ends in
a comment and nothing but blanks is left of that comment, the streams meet again behind it, so they
hold the same syntax up to an offset exactly if no directive has run over any.
-/

namespace ImportSurvey.Source

open Text

variable {start stop firstLine line n k m : Nat} {c : Char} {kind : TokenKind} {closed : Bool}
  {cs text rest body behind source : List Char} {t u v : Token} {ts lead : List Token}

def significantBefore (n : Nat) (ts : List Token) : List Token :=
  ts.filter fun t => t.isSignificant && decide (t.start < n)

theorem mem_significantBefore :
    t ∈ significantBefore n ts ↔ t ∈ ts ∧ t.isSignificant = true ∧ t.start < n := by
  simp [significantBefore]

/-- What lies between a directive that leaves a block open and the end of that block. -/
def openBlock? (source : List Char) (t : Token) : Option (List Char) :=
  if t.kind = .comment ∧ leavesBlockOpen t.text.toList = true then
    (cut? ['*', '/'] (source.drop t.stop)).map Prod.fst
  else none

/-- Where a directive ends that runs beyond its line: behind the block it leaves open, if no line up
to there is a package clause. -/
def overrun? (source : List Char) (t : Token) : Option Nat :=
  match openBlock? source t with
  | some body =>
    if ∃ line ∈ linesBelow body, IsClauseLine line then none else some (t.stop + body.length + 2)
  | none => none

/-- No comment that runs beyond its line covers syntax that begins before an offset. -/
def SparesCode (n : Nat) (source : List Char) (ts : List Token) : Prop :=
  ∀ t ∈ ts, ∀ k ∈ overrun? source t, ∀ u ∈ ts, u.isSignificant = true → u.start < n →
    t.stop ≤ u.start → k ≤ u.start

/-- Only blanks are left of a comment from an offset on, and it leaves no block open itself. -/
def IsSpent (source : List Char) (k : Nat) (v : Token) : Prop :=
  leavesBlockOpen v.text.toList = false ∧ ((source.drop k).take (v.stop - k)).all isGap = true

/-- Where a comment that runs beyond its line ends within another one, that one is spent. -/
def LeavesNoRest (n : Nat) (source : List Char) (ts : List Token) : Prop :=
  ∀ t ∈ ts, ∀ k ∈ overrun? source t, k < n → ∀ v ∈ ts, v.isSignificant = false →
    v.start < k → k ≤ v.stop → IsSpent source k v

instance (n : Nat) (source : List Char) (ts : List Token) : Decidable (SparesCode n source ts) :=
  inferInstanceAs (Decidable (∀ t ∈ ts, ∀ k ∈ overrun? source t, ∀ u ∈ ts,
    u.isSignificant = true → u.start < n → t.stop ≤ u.start → k ≤ u.start))

instance (source : List Char) (k : Nat) (v : Token) : Decidable (IsSpent source k v) :=
  inferInstanceAs (Decidable (_ ∧ _))

instance (n : Nat) (source : List Char) (ts : List Token) : Decidable (LeavesNoRest n source ts) :=
  inferInstanceAs (Decidable (∀ t ∈ ts, ∀ k ∈ overrun? source t, k < n → ∀ v ∈ ts,
    v.isSignificant = false → v.start < k → k ≤ v.stop → IsSpent source k v))

theorem openBlock?_eq_some : openBlock? source t = some body ↔
    (t.kind = .comment ∧ leavesBlockOpen t.text.toList = true) ∧
      ∃ behind, cut? ['*', '/'] (source.drop t.stop) = some (body, behind) := by
  unfold openBlock?
  by_cases hopen : t.kind = .comment ∧ leavesBlockOpen t.text.toList = true
  · simp [hopen]
  · simp [hopen]

theorem overrun?_eq_some : overrun? source t = some k ↔ ∃ body, openBlock? source t = some body ∧
    (¬ ∃ line ∈ linesBelow body, IsClauseLine line) ∧ t.stop + body.length + 2 = k := by
  unfold overrun?
  cases openBlock? source t with
  | none => simp
  | some body =>
    simp only [Option.some.injEq, exists_eq_left']
    by_cases hline : ∃ line ∈ linesBelow body, IsClauseLine line
    · rw [if_pos hline]
      exact iff_of_false (by simp) fun h => h.1 hline
    · rw [if_neg hline, Option.some.injEq]
      exact (and_iff_right hline).symm

/-! ## One lexeme under both rules -/

private theorem lexeme_of_comment (h : lexeme .ownLine c cs = (.comment, ⟨text, rest, closed⟩)) :
    lexeme .openDirective c cs = (.comment, extendDirective ⟨text, rest, closed⟩) := by
  have htrivia : (lexeme .ownLine c cs).1.isTrivia = true := by
    rw [h]
    rfl
  rcases exists_of_isTrivia htrivia with rfl | ⟨rfl, cs', rfl⟩ | ⟨rfl, cs', rfl⟩
  · exact absurd (congrArg Prod.fst h) (by decide : TokenKind.newline ≠ .comment)
  · exact congrArg (fun x => (TokenKind.comment, extendDirective x.2)) h
  · exact absurd (congrArg Prod.fst h) (by decide : TokenKind.blockComment ≠ .comment)

private theorem lexeme_of_not_comment (h : (lexeme .ownLine c cs).1 ≠ .comment) :
    lexeme .openDirective c cs = lexeme .ownLine c cs := by
  by_cases htrivia : (lexeme .ownLine c cs).1.isTrivia = true
  · rcases exists_of_isTrivia htrivia with rfl | ⟨rfl, cs', rfl⟩ | ⟨rfl, cs', rfl⟩
    · rfl
    · exact absurd rfl h
    · rfl
  · exact lexeme_eq_of_significant .openDirective (by simpa using htrivia)

theorem head?_drop_stop (ht : t ∈ tokensFrom .ownLine 0 line cs) (hkind : t.kind = .comment) :
    (cs.drop t.stop).head?.all (· == '\n') = true := by
  obtain ⟨pre, c, rest, rfl, -, rfl⟩ := exists_split_of_mem ht
  have hsplit : pre ++ c :: rest = (pre ++ (lexeme .ownLine c rest).2.text) ++
      (lexeme .ownLine c rest).2.rest := by
    rw [List.append_assoc, lexeme_append]
  have hplace : 0 + pre.length + (lexeme .ownLine c rest).2.text.length =
      (pre ++ (lexeme .ownLine c rest).2.text).length := by
    rw [Nat.zero_add, List.length_append]
  change ((pre ++ c :: rest).drop (0 + pre.length +
    (lexeme .ownLine c rest).2.text.length)).head?.all (· == '\n') = true
  rw [hplace, hsplit, List.drop_left]
  exact head?_rest_of_comment hkind

theorem lexeme_of_overrun?_none (h : lexeme .ownLine c cs = (kind, ⟨text, rest, closed⟩))
    (hsource : source.drop (start + text.length) = rest)
    (hnone : overrun? source (tokenAt start line kind text closed) = none) :
    lexeme .openDirective c cs = (kind, ⟨text, rest, closed⟩) := by
  by_cases hkind : kind = .comment
  · subst hkind
    rw [lexeme_of_comment h]
    congr 1
    cases hopen : leavesBlockOpen text with
    | false => exact extendDirective_of_closed hopen
    | true =>
      cases hcut : cut? ['*', '/'] rest with
      | none => exact extendDirective_of_unclosed hcut
      | some x =>
        cases hpackage : holdsPackageLine x.1 with
        | true => exact extendDirective_of_packageLine hcut hpackage
        | false =>
          have hsome : overrun? source (tokenAt start line .comment text closed) =
              some (start + text.length + x.1.length + 2) := by
            refine overrun?_eq_some.2
              ⟨x.1, openBlock?_eq_some.2 ⟨⟨rfl, ?_⟩, x.2, ?_⟩, ?_, rfl⟩
            · rwa [tokenAt, String.toList_ofList]
            · rwa [tokenAt, hsource]
            · rw [← holdsPackageLine_iff, hpackage]
              exact Bool.false_ne_true
          rw [hsome] at hnone
          contradiction
  · rw [← h]
    apply lexeme_of_not_comment
    rw [h]
    exact hkind

/-- A comment that runs beyond its line takes all up to the end of the next block. -/
theorem tokensFrom_of_overrun? (hgap : isGap c = false)
    (h : lexeme .ownLine c cs = (kind, ⟨text, rest, closed⟩))
    (hsource : source.drop (start + text.length) = rest)
    (hsome : overrun? source (tokenAt start line kind text closed) = some k) :
    ∃ u body behind, u.isSignificant = false ∧ cut? ['*', '/'] rest = some (body, behind) ∧
      tokensFrom .openDirective start line (c :: cs) =
        u :: tokensFrom .openDirective k
          (line + text.count '\n' + (body ++ ['*', '/']).count '\n') behind := by
  obtain ⟨body, hblock, hline, rfl⟩ := overrun?_eq_some.1 hsome
  obtain ⟨⟨hkind, hopen⟩, behind, hcut⟩ := openBlock?_eq_some.1 hblock
  obtain rfl : kind = .comment := hkind
  rw [tokenAt, String.toList_ofList] at hopen
  change cut? ['*', '/'] (source.drop (start + text.length)) = _ at hcut
  rw [hsource] at hcut
  rw [← holdsPackageLine_iff, Bool.not_eq_true] at hline
  have hlexeme : lexeme .openDirective c cs =
      (.comment, ⟨text ++ body ++ ['*', '/'], behind, true⟩) := by
    rw [lexeme_of_comment h, extendDirective_of_open hopen hcut hline]
  have hplace : start + (text ++ body ++ ['*', '/']).length =
      start + text.length + body.length + 2 := by
    simp only [List.length_append, List.length_cons, List.length_nil]
    omega
  have hlines : line + (text ++ body ++ ['*', '/']).count '\n' =
      line + text.count '\n' + (body ++ ['*', '/']).count '\n' := by
    simp only [List.count_append]
    omega
  refine ⟨tokenAt start line .comment (text ++ body ++ ['*', '/']) true, body, behind, rfl, hcut,
    ?_⟩
  rw [tokensFrom_of_lexeme hgap hlexeme, hplace, hlines]
  rfl

/-! ## Where the streams meet again -/

private theorem exists_covers_blockEnd (hsource : source.drop stop = body ++ '*' :: '/' :: behind)
    (hcode : ∀ u ∈ tokensFrom .ownLine stop line (source.drop stop), u.isSignificant = true →
      u.start < stop + body.length + 2 → False) :
    ∃ v ∈ tokensFrom .ownLine stop line (source.drop stop), v.isSignificant = false ∧
      v.start ≤ stop + body.length ∧ stop + body.length + 2 ≤ v.stop := by
  obtain ⟨v, hv, hstart, hstop⟩ : ∃ v ∈ tokensFrom .ownLine stop line (source.drop stop),
      v.start ≤ stop + body.length ∧ stop + body.length < v.stop :=
    exists_mem_of_split hsource rfl
  have htrivia : v.isSignificant = false := by
    rw [Bool.eq_false_iff]
    exact fun hsignificant => hcode v hv hsignificant (by omega)
  refine ⟨v, hv, htrivia, hstart, Nat.succ_le_of_lt (Nat.lt_of_le_of_ne hstop ?_)⟩
  intro hends
  obtain ⟨pre, c, rest, hsplit, -, rfl⟩ := exists_split_of_mem hv
  have happend := lexeme_append .ownLine c rest
  have hlexeme : (lexeme .ownLine c rest).1.isTrivia = true := by
    simpa [Token.isSignificant, tokenAt] using htrivia
  simp only [tokenAt] at hends
  -- the token would end between the star and the slash
  have hmeet : (pre ++ (lexeme .ownLine c rest).2.text) ++ (lexeme .ownLine c rest).2.rest =
      (body ++ ['*']) ++ '/' :: behind := by
    rw [List.append_assoc, happend, ← hsplit, hsource]
    simp
  obtain ⟨htext, hrest⟩ := List.append_inj hmeet (by
    simp only [List.length_append, List.length_singleton]
    omega)
  have hlast : (lexeme .ownLine c rest).2.text.getLast? = some '*' := by
    have hconcat := congrArg List.getLast? htext
    obtain ⟨d, hd⟩ := Option.ne_none_iff_exists'.1
      (mt List.getLast?_eq_none_iff.1 (lexeme_ne_nil .ownLine c rest))
    rw [List.getLast?_append, hd, List.getLast?_concat] at hconcat
    rw [hd]
    exact hconcat
  apply head?_rest_ne_slash hlexeme hlast
  rw [hrest]
  rfl

/-- Behind a token that is spent the streams are read from one place in one text. -/
theorem exists_meeting (hsource : source.drop stop = body ++ '*' :: '/' :: behind)
    (hv : v ∈ tokensFrom .ownLine stop line (source.drop stop))
    (hk : k = stop + body.length + 2) (hstop : k ≤ v.stop)
    (hblank : ((source.drop k).take (v.stop - k)).all isGap = true) :
    ∃ lead line', tokensFrom .ownLine stop line (source.drop stop) =
        lead ++ v :: tokensFrom .ownLine v.stop line' (source.drop v.stop) ∧
      tokensFrom .openDirective k (line + (body ++ ['*', '/']).count '\n') behind =
        tokensFrom .openDirective v.stop line' (source.drop v.stop) := by
  obtain ⟨lead, pre, c, rest, hsplit, hgap, htoken, hstream⟩ := exists_stream_of_mem hv
  rw [tokensFrom_lexeme hgap, ← htoken] at hstream
  have happend := lexeme_append .ownLine c rest
  generalize (lexeme .ownLine c rest).2.text = text at *
  generalize (lexeme .ownLine c rest).2.rest = after at *
  have hplace : v.stop = stop + (pre ++ text).length := by
    rw [htoken, List.length_append, ← Nat.add_assoc]
    rfl
  have hwhole : source.drop stop = (pre ++ text) ++ after := by
    rw [hsplit, List.append_assoc, happend]
  have hbody : source.drop stop = (body ++ ['*', '/']) ++ behind := by
    rw [hsource]
    simp
  have hafter : source.drop v.stop = after := by
    rw [hplace, ← List.drop_drop, hwhole, List.drop_left]
  have hbehind : source.drop k = behind := by
    have hlength : stop + body.length + 2 = stop + (body ++ ['*', '/']).length := by
      rw [List.length_append]
      rfl
    rw [hk, hlength, ← List.drop_drop, hbody, List.drop_left]
  obtain ⟨blanks, hblanks⟩ : body ++ ['*', '/'] <+: pre ++ text := by
    apply List.prefix_of_prefix_length_le (hbody ▸ List.prefix_append _ _)
      (hwhole ▸ List.prefix_append _ _)
    rw [List.length_append, List.length_cons, List.length_singleton]
    omega
  have hrest : behind = blanks ++ after := by
    rw [hwhole, ← hblanks, List.append_assoc] at hbody
    exact (List.append_cancel_left hbody).symm
  have hends : v.stop = k + blanks.length := by
    rw [hplace, ← hblanks, hk]
    simp only [List.length_append, List.length_cons, List.length_nil]
    omega
  rw [hbehind, hrest, hends, Nat.add_sub_cancel_left, List.take_left, List.all_eq_true] at hblank
  have hlines : (pre ++ text).count '\n' = (body ++ ['*', '/']).count '\n' := by
    have hnone : blanks.count '\n' = 0 :=
      List.count_eq_zero.2 fun hmem => ne_newline_of_isGap (hblank _ hmem) rfl
    rw [← hblanks, List.count_append, hnone, Nat.add_zero]
  refine ⟨lead, line + (pre ++ text).count '\n', ?_, ?_⟩
  · rw [hstream, hafter, htoken, List.count_append, ← Nat.add_assoc]
    rfl
  · rw [hafter, hrest, hlines, tokensFrom_gaps hblank, hends]

/-! ## The syntax of both streams -/

theorem SparesCode.of_suffix (lead : List Token) (h : SparesCode n source (lead ++ ts)) :
    SparesCode n source ts :=
  fun t ht k hk u hu => h t (List.mem_append_right _ ht) k hk u (List.mem_append_right _ hu)

theorem LeavesNoRest.of_suffix (lead : List Token) (h : LeavesNoRest n source (lead ++ ts)) :
    LeavesNoRest n source ts :=
  fun t ht k hk hn v hv => h t (List.mem_append_right _ ht) k hk hn v (List.mem_append_right _ hv)

theorem LeavesNoRest.mono (h : LeavesNoRest n source ts) (hm : m ≤ n) :
    LeavesNoRest m source ts :=
  fun t ht k hk hlt => h t ht k hk (Nat.lt_of_lt_of_le hlt hm)

/-- What comes later in a stream cannot run over what came before. -/
theorem sparesCode_append (lead : List Token)
    (hstream : tokensFrom .ownLine start line cs = lead ++ ts)
    (hlead : ∀ t ∈ lead, ∀ k ∈ overrun? source t, ∀ u ∈ lead ++ ts, u.isSignificant = true →
      u.start < n → t.stop ≤ u.start → k ≤ u.start) :
    SparesCode n source (lead ++ ts) ↔ SparesCode n source ts := by
  refine ⟨SparesCode.of_suffix lead, fun h t ht k hk u hu hsignificant hn hstop => ?_⟩
  rcases List.mem_append.1 ht with ht' | ht'
  · exact hlead t ht' k hk u hu hsignificant hn hstop
  · rcases List.mem_append.1 hu with hu' | hu'
    · have hpair := pairwise_stop_le_start .ownLine start line cs
      have hwidth : ∀ x ∈ lead ++ ts, x.start < x.stop := by
        rw [← hstream]
        exact fun x => start_lt_stop
      rw [hstream] at hpair
      have hbefore := (List.pairwise_append.1 hpair).2.2 u hu' t ht'
      have := hwidth t ht
      have := hwidth u hu
      omega
    · exact h t ht' k hk u hu' hsignificant hn hstop

theorem significantBefore_cons_of_trivia (h : t.isSignificant = false) :
    significantBefore n (t :: ts) = significantBefore n ts := by
  simp [significantBefore, h]

private theorem significantBefore_cons_inj {ts ts' : List Token} :
    significantBefore n (t :: ts) = significantBefore n (t :: ts') ↔
      significantBefore n ts = significantBefore n ts' := by
  simp only [significantBefore, List.filter_cons]
  split
  · rw [List.cons_inj_right]
  · exact Iff.rfl

theorem significantBefore_eq_nil (h : ∀ u ∈ ts, u.isSignificant = true → ¬ u.start < n) :
    significantBefore n ts = [] := by
  rw [List.eq_nil_iff_forall_not_mem]
  intro u hu
  obtain ⟨hmem, hsignificant, hn⟩ := mem_significantBefore.1 hu
  exact h u hmem hsignificant hn

private theorem overrun?_unique (ht : overrun? source t = some k) (hu : overrun? source u = some m)
    (hle : t.stop ≤ u.stop) (hlt : u.stop + 2 ≤ k) : m = k := by
  obtain ⟨body, hblock, -, rfl⟩ := overrun?_eq_some.1 ht
  obtain ⟨body', hblock', -, rfl⟩ := overrun?_eq_some.1 hu
  obtain ⟨-, behind, hcut⟩ := openBlock?_eq_some.1 hblock
  obtain ⟨-, behind', hcut'⟩ := openBlock?_eq_some.1 hblock'
  have hskipped : body = body.take (u.stop - t.stop) ++ body.drop (u.stop - t.stop) :=
    (List.take_append_drop _ _).symm
  have hlength : (body.take (u.stop - t.stop)).length = u.stop - t.stop :=
    List.length_take_of_le (by omega)
  rw [hskipped] at hcut
  have hdrop := cut?_drop hcut
  rw [hlength, List.drop_drop, Nat.add_sub_cancel' hle, hcut'] at hdrop
  have hbody := congrArg (fun x => x.1.length) (Option.some.inj hdrop)
  simp only [List.length_drop] at hbody
  omega

section Spent

variable (hstream : tokensFrom .ownLine start line cs = t :: (lead ++ v :: ts))
  (hcode : ∀ u ∈ t :: (lead ++ v :: ts), u.isSignificant = true → u.start < n → k ≤ u.start)
  (hv : v.start + 2 ≤ k)
include hstream hcode hv

theorem significantBefore_behind (ht : t.isSignificant = false)
    (htrivia : v.isSignificant = false) :
    significantBefore n (t :: (lead ++ v :: ts)) = significantBefore n ts := by
  have hnone : significantBefore n lead = [] := by
    apply significantBefore_eq_nil
    intro u hu hsignificant hn
    have hmem : u ∈ t :: (lead ++ v :: ts) := by simp [hu]
    have hlt : u.start < u.stop := start_lt_stop (hstream ▸ hmem)
    have hpair := pairwise_stop_le_start .ownLine start line cs
    rw [hstream] at hpair
    have hbefore := (List.pairwise_append.1 (List.pairwise_cons.1 hpair).2).2.2 u hu v
      List.mem_cons_self
    have := hcode u hmem hsignificant hn
    omega
  calc significantBefore n (t :: (lead ++ v :: ts))
      = significantBefore n (lead ++ v :: ts) := significantBefore_cons_of_trivia ht
    _ = significantBefore n lead ++ significantBefore n (v :: ts) := List.filter_append ..
    _ = significantBefore n ts := by
        rw [hnone, significantBefore_cons_of_trivia htrivia, List.nil_append]

/-- What a directive takes with it without covering syntax does not run beyond it. -/
theorem sparesCode_behind (hsome : overrun? source t = some k)
    (hclosed : leavesBlockOpen v.text.toList = false) :
    SparesCode n source (t :: (lead ++ v :: ts)) ↔ SparesCode n source ts := by
  have hsplit : t :: (lead ++ v :: ts) = (t :: (lead ++ [v])) ++ ts := by simp
  have hpair := pairwise_stop_le_start .ownLine start line cs
  rw [hstream] at hpair
  obtain ⟨hfirst, hrest⟩ := List.pairwise_cons.1 hpair
  rw [hsplit] at hstream hcode ⊢
  apply sparesCode_append _ hstream
  intro x hx m hm u hu hsignificant hn hstop
  have hle := hcode u hu hsignificant hn
  have hm' : m = k := by
    rcases List.mem_cons.1 hx with rfl | hx'
    · exact Option.some.inj (hm.symm.trans hsome)
    · rcases List.mem_append.1 hx' with hlead | hlast
      · have hbefore := hfirst x (List.mem_append_left _ hlead)
        have hbehind := (List.pairwise_append.1 hrest).2.2 x hlead v List.mem_cons_self
        have hlt : x.start < x.stop := start_lt_stop (by rw [hstream]; simp [hlead])
        exact overrun?_unique hsome hm (by omega) (by omega)
      · rw [List.mem_singleton.1 hlast] at hm
        obtain ⟨body, hblock, -⟩ := overrun?_eq_some.1 hm
        rw [(openBlock?_eq_some.1 hblock).1.2] at hclosed
        contradiction
  omega

end Spent

/-- A directive that runs on: the streams hold the same syntax before an offset if they do from
where they meet again, or if the offset is not reached. -/
theorem significantBefore_eq_iff_of_overrun {ts : List Token} (hts : ts =
      tokensFrom .ownLine t.stop line (source.drop t.stop))
    (hfirst : tokensFrom .ownLine start firstLine cs = t :: ts)
    (hsome : overrun? source t = some k)
    (hcut : cut? ['*', '/'] (source.drop t.stop) = some (body, behind))
    (hrest : LeavesNoRest n source (t :: ts))
    (ih : ∀ stop line, t.stop < stop →
      LeavesNoRest n source (tokensFrom .ownLine stop line (source.drop stop)) →
      (significantBefore n (tokensFrom .openDirective stop line (source.drop stop)) =
          significantBefore n (tokensFrom .ownLine stop line (source.drop stop)) ↔
        SparesCode n source (tokensFrom .ownLine stop line (source.drop stop)))) :
    significantBefore n
        (tokensFrom .openDirective k (line + (body ++ ['*', '/']).count '\n') behind) =
        significantBefore n (t :: ts) ↔ SparesCode n source (t :: ts) := by
  obtain ⟨_, hblock, -, hk⟩ := overrun?_eq_some.1 hsome
  obtain ⟨⟨hkind, -⟩, _, hcut'⟩ := openBlock?_eq_some.1 hblock
  rw [hcut, Option.some.injEq, Prod.mk.injEq] at hcut'
  obtain ⟨rfl, rfl⟩ := hcut'
  have ht : t.isSignificant = false := by simp [Token.isSignificant, hkind, TokenKind.isTrivia]
  by_cases hcode : ∀ u ∈ t :: ts, u.isSignificant = true → u.start < n → k ≤ u.start
  · by_cases hn : k < n
    · have hsource : source.drop t.stop = body ++ '*' :: '/' :: behind := by
        rw [cut?_eq_append hcut]
        simp
      have hcovered : ∀ u ∈ tokensFrom .ownLine t.stop line (source.drop t.stop),
          u.isSignificant = true → u.start < t.stop + body.length + 2 → False := by
        intro u hu hsignificant hlt
        have := hcode u (List.mem_cons_of_mem _ (hts ▸ hu)) hsignificant (by omega)
        omega
      obtain ⟨v, hv, htrivia, hstart, hends⟩ := exists_covers_blockEnd hsource hcovered
      rw [hk] at hends
      obtain ⟨hclosed, hblank⟩ := hrest t List.mem_cons_self k hsome hn v
        (List.mem_cons_of_mem _ (hts ▸ hv)) htrivia (by omega) hends
      obtain ⟨lead, line', hown, hopen⟩ := exists_meeting hsource hv hk.symm hends hblank
      obtain rfl := hts.trans hown
      have hlater := ih v.stop line' (by omega)
        (LeavesNoRest.of_suffix (t :: (lead ++ [v])) (by simpa using hrest))
      rw [hopen, significantBefore_behind hfirst hcode (by omega) ht htrivia, hlater,
        sparesCode_behind hfirst hcode (by omega) hsome hclosed]
    · -- all that is read before the offset lies before the end of the block
      have hnone : significantBefore n (t :: ts) = [] := by
        apply significantBefore_eq_nil
        intro u hu hsignificant hlt
        have := hcode u hu hsignificant hlt
        omega
      have hnone' : significantBefore n (tokensFrom .openDirective k
          (line + (body ++ ['*', '/']).count '\n') behind) = [] := by
        apply significantBefore_eq_nil
        intro u hu _ hlt
        have := le_start_of_mem hu
        omega
      rw [hnone, hnone']
      refine iff_of_true rfl fun _ _ m _ u hu hsignificant hlt _ => ?_
      have := hcode u hu hsignificant hlt
      omega
  · refine iff_of_false (fun hsame => hcode fun u hu hsignificant hlt => ?_)
      (fun hspares => hcode fun u hu hsignificant hlt => ?_)
    · have hmem := mem_significantBefore.2 ⟨hu, hsignificant, hlt⟩
      rw [← hsame] at hmem
      exact le_start_of_mem (mem_significantBefore.1 hmem).1
    · rcases List.mem_cons.1 hu with rfl | hu'
      · rw [ht] at hsignificant
        contradiction
      · exact hspares t List.mem_cons_self k hsome u hu hsignificant hlt
          (le_start_of_mem (hts ▸ hu'))

/-- Up to an offset the streams hold the same syntax exactly if no comment that runs beyond its line
covers any. -/
theorem significantBefore_eq_iff (n : Nat) (source : List Char) (start line : Nat)
    (hrest : LeavesNoRest n source (tokensFrom .ownLine start line (source.drop start))) :
    significantBefore n (tokensFrom .openDirective start line (source.drop start)) =
        significantBefore n (tokensFrom .ownLine start line (source.drop start)) ↔
      SparesCode n source (tokensFrom .ownLine start line (source.drop start)) := by
  induction hlength : source.length - start using Nat.strongRecOn generalizing start line with
  | ind length ih =>
    subst hlength
    cases hsource : source.drop start with
    | nil => simp [SparesCode]
    | cons c cs =>
      have hlength := congrArg List.length hsource
      rw [List.length_drop, List.length_cons] at hlength
      rw [hsource] at hrest
      by_cases hgap : isGap c = true
      · have htail : source.drop (start + 1) = cs := by
          rw [← List.drop_drop, hsource]
          rfl
        rw [tokensFrom_gap hgap, ← htail] at hrest
        rw [tokensFrom_gap hgap, tokensFrom_gap hgap, ← htail]
        exact ih _ (by omega) (start + 1) line hrest rfl
      · rw [Bool.not_eq_true] at hgap
        obtain ⟨kind, text, rest, closed, hlexeme⟩ :
            ∃ kind text rest closed, lexeme .ownLine c cs = (kind, ⟨text, rest, closed⟩) :=
          ⟨_, _, _, _, rfl⟩
        have happend : text ++ rest = c :: cs := by
          have h := lexeme_append .ownLine c cs
          rwa [hlexeme] at h
        have hne : text ≠ [] := by
          have h := lexeme_ne_nil .ownLine c cs
          rwa [hlexeme] at h
        have htail : source.drop (start + text.length) = rest := by
          rw [← List.drop_drop, hsource, ← happend, List.drop_left]
        have hpos := List.length_pos_iff.2 hne
        have hown : tokensFrom .ownLine start line (c :: cs) =
            tokenAt start line kind text closed :: tokensFrom .ownLine (start + text.length)
              (line + text.count '\n') rest := tokensFrom_of_lexeme hgap hlexeme
        rw [hown] at hrest ⊢
        have hlater := ih (source.length - (start + text.length)) (by omega) (start + text.length)
          (line + text.count '\n') (htail ▸ LeavesNoRest.of_suffix [_] hrest) rfl
        cases hover : overrun? source (tokenAt start line kind text closed) with
        | none =>
          have hreal := lexeme_of_overrun?_none hlexeme htail hover
          rw [htail] at hlater
          rw [tokensFrom_of_lexeme hgap hreal, significantBefore_cons_inj, hlater]
          exact (sparesCode_append [_] hown (by simp [hover])).symm
        | some k =>
          obtain ⟨u, body, behind, hu, hcut, hreal⟩ :=
            tokensFrom_of_overrun? hgap hlexeme htail hover
          rw [← htail] at hcut hown hrest ⊢
          rw [hreal, significantBefore_cons_of_trivia hu]
          refine significantBefore_eq_iff_of_overrun rfl hown hover hcut hrest
            fun stop line hstop hrest' => ih (source.length - stop) ?_ stop line hrest' rfl
          change start + text.length < stop at hstop
          omega

end ImportSurvey.Source
