import ImportSurvey.Proofs.Source.ClauseLine
import ImportSurvey.Proofs.Source.Overrun
/-!
# Package clauses and open blocks

A package clause with what may follow its name: nothing, a line end, a carriage return, a semicolon
or a comment. A directive above it that leaves a block open meets its line before the end of that
block, and stops there if the line ends behind the clause.
-/

namespace ImportSurvey.Source

open Text

variable {c : Char} {cs body behind q : List Char} {t : Token} {n : Nat}

/-! ## The line of a clause -/

/-- A text up to the end of its line, or to the end of a block if that comes first. -/
def restOfLine (cs : List Char) : List Char :=
  (before ['*', '/'] cs).takeWhile (· != '\n')

theorem restOfLine_cons (hblock : ¬ ['*', '/'] <+: c :: cs) (hline : c ≠ '\n') :
    restOfLine (c :: cs) = c :: restOfLine cs := by
  unfold restOfLine before
  rw [cut?_cons hblock]
  cases cut? ['*', '/'] cs with
  | none => exact List.takeWhile_cons_of_pos (by simpa using hline)
  | some x => exact List.takeWhile_cons_of_pos (by simpa using hline)

private theorem restOfLine_newline (cs : List Char) : restOfLine ('\n' :: cs) = [] := by
  unfold restOfLine before
  rw [cut?_cons (by simp)]
  cases cut? ['*', '/'] cs with
  | none => rfl
  | some x => rfl

private theorem restOfLine_block (cs : List Char) : restOfLine ('*' :: '/' :: cs) = [] := by
  have hcut : cut? ['*', '/'] ('*' :: '/' :: cs) = some ([], cs) := cut?_of_eq_append rfl
  rw [restOfLine, before, hcut]
  rfl

private theorem restOfLine_eq_nil :
    restOfLine cs = [] ↔ cs = [] ∨ ['\n'] <+: cs ∨ ['*', '/'] <+: cs := by
  constructor
  · intro h
    cases cs with
    | nil => exact .inl rfl
    | cons c cs =>
      by_cases hblock : ['*', '/'] <+: c :: cs
      · exact .inr (.inr hblock)
      · by_cases hline : c = '\n'
        · exact .inr (.inl ⟨cs, by rw [hline]; rfl⟩)
        · rw [restOfLine_cons hblock hline] at h
          contradiction
  · rintro (rfl | ⟨rest, rfl⟩ | ⟨rest, rfl⟩)
    · rfl
    · exact restOfLine_newline rest
    · exact restOfLine_block rest

private theorem takeWhile_mem_splitOn (cs : List Char) :
    cs.takeWhile (· != '\n') ∈ cs.splitOn '\n' := by
  by_cases hline : '\n' ∈ cs
  · obtain ⟨first, rest, rfl, hfirst⟩ := List.eq_append_cons_of_mem hline
    have htake : (first ++ '\n' :: rest).takeWhile (· != '\n') = first :=
      congrArg Span.text (runOf_line hfirst rest)
    rw [List.splitOn_append_cons_self_of_not_mem hfirst, htake]
    exact List.mem_cons_self
  · have hplain : ∀ d ∈ cs, (d != '\n') = true :=
      fun d hd => bne_iff_ne.2 fun heq => hline (heq ▸ hd)
    have htake : (cs ++ []).takeWhile (· != '\n') = cs ++ [] :=
      List.takeWhile_append_of_pos hplain
    rw [List.append_nil] at htake
    rw [List.splitOn_eq_singleton hline, htake]
    exact List.mem_cons_self

/-- What follows the name of a package clause and the blanks behind it. -/
inductive Follower
  | nothing
  | lineEnd (rest : List Char)
  | carriageReturn (rest : List Char)
  | semicolon (rest : List Char)
  | lineComment (rest : List Char)
  | blockComment (rest : List Char)

namespace Follower

def text : Follower → List Char
  | nothing => []
  | lineEnd rest => '\n' :: rest
  | carriageReturn rest => '\r' :: rest
  | semicolon rest => ';' :: rest
  | lineComment rest => '/' :: '/' :: rest
  | blockComment rest => '/' :: '*' :: rest

/-- The line holds nothing behind the clause but one semicolon or a comment. The end of a block ends
the line as well, and the two characters that open a comment may be in it. -/
def EndsLine : Follower → Prop
  | nothing | lineEnd _ | lineComment _ => True
  | carriageReturn _ => False
  | semicolon rest => rest = [] ∨ ['\n'] <+: rest ∨ ['*', '/'] <+: rest
  | blockComment rest => ¬ ['/'] <+: rest

theorem endsClause_iff (f : Follower) : EndsClause (restOfLine f.text) ↔ f.EndsLine := by
  cases f with
  | nothing => exact iff_of_true .nothing trivial
  | lineEnd rest =>
    rw [text, restOfLine_newline]
    exact iff_of_true .nothing trivial
  | carriageReturn rest =>
    rw [text, restOfLine_cons (by simp) (by decide)]
    exact iff_of_false (fun h => nomatch h) id
  | semicolon rest =>
    rw [text, restOfLine_cons (by simp) (by decide), EndsLine, ← restOfLine_eq_nil]
    constructor
    · intro h
      cases hrest : restOfLine rest with
      | nil => rfl
      | cons d ds =>
        rw [hrest] at h
        exact nomatch h
    · intro h
      rw [h]
      exact .semicolon
  | lineComment rest =>
    rw [text, restOfLine_cons (by simp) (by decide), restOfLine_cons (by simp) (by decide)]
    exact iff_of_true (.lineComment _) trivial
  | blockComment rest =>
    rw [text, restOfLine_cons (by simp) (by decide)]
    by_cases hblock : ['/'] <+: rest
    · obtain ⟨rest, rfl⟩ := hblock
      exact iff_of_false (fun h => nomatch restOfLine_block rest ▸ h) (absurd ⟨rest, rfl⟩)
    · rw [restOfLine_cons (by simpa [List.cons_prefix_cons] using hblock) (by decide)]
      exact iff_of_true (.blockComment _) hblock

theorem head?_restOfLine (f : Follower) {p : Char → Bool} (hreturn : p '\r' = true)
    (hsemicolon : p ';' = true) (hslash : p '/' = true) :
    (restOfLine f.text).head?.all p := by
  cases f with
  | nothing => rfl
  | lineEnd rest =>
    rw [text, restOfLine_newline]
    rfl
  | carriageReturn rest => rwa [text, restOfLine_cons (by simp) (by decide)]
  | semicolon rest => rwa [text, restOfLine_cons (by simp) (by decide)]
  | lineComment rest => rwa [text, restOfLine_cons (by simp) (by decide)]
  | blockComment rest => rwa [text, restOfLine_cons (by simp) (by decide)]

end Follower

structure WrittenClause where
  above : List Char
  line : ClauseLine
  follower : Follower
  above_lines : WholeLines above

namespace WrittenClause

variable (w : WrittenClause)

def text : List Char :=
  w.above ++ (w.line.line ++ w.follower.text)

def offset : Nat :=
  w.above.length + w.line.indent.length

/-- The line of the clause, up to the end of a block. -/
def ownLine : List Char :=
  w.line.line ++ restOfLine w.follower.text

theorem isClauseLine_ownLine : IsClauseLine w.ownLine ↔ w.follower.EndsLine := by
  have hline : w.line.line = w.line.start.text := by
    simp [ClauseLine.line, ClauseLine.behindKeyword, ClauseLine.start, ClauseStart.text]
  rw [← isPackageLine_iff, ownLine, hline, w.line.start.isPackageLine_append
    (w.follower.head?_restOfLine rfl rfl rfl) (w.follower.head?_restOfLine rfl rfl rfl),
    w.follower.endsClause_iff]

/-- A comment above the clause ends with its line, so neither in the indentation of the clause nor
right before the keyword. -/
private theorem stop_lt_length_above (ht : t ∈ tokensFrom .ownLine 0 1 w.text)
    (hkind : t.kind = .comment) (habove : t.stop ≤ w.offset) : t.stop < w.above.length := by
  have hend : (w.text.drop t.stop).head?.all (· == '\n') = true := head?_drop_stop ht hkind
  refine Nat.lt_of_not_le fun hle => ?_
  have hplace : t.stop = w.above.length + (t.stop - w.above.length) := by omega
  have hindent : t.stop - w.above.length ≤ w.line.indent.length := by
    unfold offset at habove
    omega
  rw [hplace, text, List.drop_length_add_append, ClauseLine.line, List.append_assoc,
    List.drop_append_of_le_length hindent] at hend
  cases hblanks : w.line.indent.drop (t.stop - w.above.length) with
  | nil =>
    rw [hblanks] at hend
    contradiction
  | cons d ds =>
    have hinline := w.line.indent_inline d (List.mem_of_mem_drop (hblanks ▸ List.mem_cons_self))
    rw [hblanks] at hend
    rw [beq_iff_eq.1 hend] at hinline
    contradiction

private theorem exists_wholeLines_above (ht : t ∈ tokensFrom .ownLine 0 1 w.text)
    (hkind : t.kind = .comment) (habove : t.stop ≤ w.offset) :
    ∃ q, WholeLines ('\n' :: q) ∧ t.stop + ('\n' :: q).length = w.above.length ∧
      w.text.drop t.stop = '\n' :: q ++ (w.line.line ++ w.follower.text) := by
  have hlt := w.stop_lt_length_above ht hkind habove
  have hend : (w.text.drop t.stop).head?.all (· == '\n') = true := head?_drop_stop ht hkind
  have hdrop : w.text.drop t.stop = w.above.drop t.stop ++ (w.line.line ++ w.follower.text) :=
    List.drop_append_of_le_length (Nat.le_of_lt hlt)
  have hlength := List.length_drop (i := t.stop) (l := w.above)
  have hsplit := List.take_append_drop t.stop w.above
  cases habove' : w.above.drop t.stop with
  | nil =>
    rw [habove', List.length_nil] at hlength
    omega
  | cons d q =>
    rw [habove'] at hdrop hlength hsplit
    rw [hdrop] at hend
    obtain rfl : d = '\n' := beq_iff_eq.1 hend
    have hwhole := w.above_lines
    rw [← hsplit] at hwhole
    exact ⟨q, hwhole.of_append, by omega, hdrop⟩

/-- A block that is left open above the clause and ends behind it takes the line of the clause. -/
theorem ownLine_mem_linesBelow (ht : t ∈ tokensFrom .ownLine 0 1 w.text)
    (habove : t.stop ≤ w.offset) (hblock : openBlock? w.text t = some body)
    (hreach : w.offset < t.stop + body.length + 2) : w.ownLine ∈ linesBelow body := by
  obtain ⟨⟨hkind, -⟩, behind, hcut⟩ := openBlock?_eq_some.1 hblock
  obtain ⟨q, hwhole, hplace, hdrop⟩ := w.exists_wholeLines_above ht hkind habove
  rw [hdrop] at hcut
  cases habove' : cut? ['*', '/'] ('\n' :: q) with
  | some x =>
    have hlong := cut?_append (w.line.line ++ w.follower.text) habove'
    rw [hcut, Option.some.injEq, Prod.mk.injEq] at hlong
    have hlength := congrArg List.length (cut?_eq_append habove')
    simp only [List.length_append, List.length_cons, List.length_nil] at hlength hplace
    rw [hlong.1] at hreach
    unfold offset at hreach
    omega
  | none =>
    have hstar : '*' ∉ w.line.line := not_mem_line rfl (by decide) w.line
    have hline : '\n' ∉ w.line.line := not_mem_line rfl (by decide) w.line
    rw [cut?_wholeLines hwhole habove', cut?_pair_append (cut?_eq_none_of_not_mem hstar)
      fun hlast => absurd (List.mem_of_getLast? hlast) hstar, Option.map_map] at hcut
    obtain ⟨⟨follows, behind'⟩, hfollows, hpair⟩ := Option.map_eq_some_iff.1 hcut
    obtain ⟨s, hs⟩ := hwhole.exists_concat
    have hbody : body = s ++ '\n' :: (w.line.line ++ follows) := by
      rw [← (Prod.mk.inj hpair).1, hs]
      simp
    have hown : w.ownLine = (w.line.line ++ follows).takeWhile (· != '\n') := by
      have hplain : ∀ d ∈ w.line.line, (d != '\n') = true :=
        fun d hd => bne_iff_ne.2 fun heq => hline (heq ▸ hd)
      rw [ownLine, restOfLine, before, hfollows, List.takeWhile_append_of_pos hplain]
    rw [hbody, linesBelow_append, hown]
    exact List.mem_append_right _ (takeWhile_mem_splitOn _)

end WrittenClause

end ImportSurvey.Source
