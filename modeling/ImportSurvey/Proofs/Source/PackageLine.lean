import ImportSurvey.Proofs.Source.Lexeme
/-!
# The package-line test

The test that keeps a directive from running over a package clause, as a grammar. It knows a clause
by its line alone, so it misses a clause that shares its line with anything but one semicolon or a
comment, a carriage return before the line end included.
-/

namespace ImportSurvey.Source

open Text

variable {c : Char} {cs r body : List Char}

/-! ## Blanks and words on one line -/

theorem isGap_of_isInlineSpace (h : isInlineSpace c = true) : isGap c = true := by
  simp only [isInlineSpace, Bool.or_eq_true, beq_iff_eq] at h
  rcases h with rfl | rfl
  · rfl
  · rfl

theorem isInlineSpace_eq_false_of_isWordStart (h : isWordStart c = true) :
    isInlineSpace c = false := by
  rw [Bool.eq_false_iff]
  intro hspace
  have hgap := isGap_of_isInlineSpace hspace
  rw [isGap_eq_false_of_isWordStart h] at hgap
  contradiction

theorem dropWhile_inlineSpace (h : ∀ c ∈ cs, isInlineSpace c = true) (w : Word) (r : List Char) :
    (cs ++ (w.text ++ r)).dropWhile isInlineSpace = w.text ++ r := by
  rw [List.dropWhile_append_of_pos h, Word.text, List.cons_append, List.dropWhile_cons_of_neg]
  rw [isInlineSpace_eq_false_of_isWordStart w.opens]
  exact Bool.false_ne_true

theorem endsWord_of_inlineSpace (h : ∀ c ∈ cs, isInlineSpace c = true) (hr : EndsWord r) :
    EndsWord (cs ++ r) := by
  cases cs with
  | nil => exact hr
  | cons c cs =>
    have hgap := isGap_of_isInlineSpace (h c (by simp))
    simp [EndsWord, isWord_eq_false_of_isGap hgap]

private theorem exists_inlineSpace (cs : List Char) :
    ∃ blanks, (∀ c ∈ blanks, isInlineSpace c = true) ∧ blanks ++ cs.dropWhile isInlineSpace = cs :=
  ⟨cs.takeWhile isInlineSpace, List.all_eq_true.1 List.all_takeWhile,
    List.takeWhile_append_dropWhile⟩

private theorem exists_word (h : cs.head?.any isWordStart = true) :
    ∃ w : Word, cs = w.text ++ cs.dropWhile isWord := by
  cases cs with
  | nil => contradiction
  | cons c cs =>
    have hstart : isWordStart c = true := by simpa using h
    have hword := isWord_of_isWordStart hstart
    refine ⟨⟨c, cs.takeWhile isWord, hstart, List.all_eq_true.1 List.all_takeWhile⟩, ?_⟩
    rw [List.dropWhile_cons_of_pos hword, Word.text, List.cons_append,
      List.takeWhile_append_dropWhile]

/-! ## One line -/

/-- What may follow the name, and blanks behind it, on a line that counts as a package clause. -/
inductive EndsClause : List Char → Prop
  | nothing : EndsClause []
  | semicolon : EndsClause [';']
  | lineComment (cs : List Char) : EndsClause ('/' :: '/' :: cs)
  | blockComment (cs : List Char) : EndsClause ('/' :: '*' :: cs)

/-- A package clause up to what follows its name, on one line. The word may be a keyword. -/
structure ClauseStart where
  indent : List Char
  space : List Char
  word : Word
  trailing : List Char
  indent_inline : ∀ c ∈ indent, isInlineSpace c = true
  space_inline : ∀ c ∈ space, isInlineSpace c = true
  space_ne_nil : space ≠ []
  trailing_inline : ∀ c ∈ trailing, isInlineSpace c = true

def ClauseStart.text (s : ClauseStart) : List Char :=
  s.indent ++ (Word.ofPackage.text ++ (s.space ++ (s.word.text ++ s.trailing)))

def IsClauseLine (line : List Char) : Prop :=
  ∃ (s : ClauseStart) (behind : List Char), EndsClause behind ∧ s.text ++ behind = line

private theorem endsClause_iff : EndsClause cs ↔
    (cs.isEmpty || cs == [';'] || ['/', '/'].isPrefixOf cs || ['/', '*'].isPrefixOf cs) = true := by
  constructor
  · intro h
    cases h with
    | nothing => rfl
    | semicolon => rfl
    | lineComment cs => simp
    | blockComment cs => simp
  · intro h
    simp only [Bool.or_eq_true, List.isEmpty_iff, beq_iff_eq, List.isPrefixOf_iff_prefix] at h
    rcases h with ((rfl | rfl) | ⟨rest, rfl⟩) | ⟨rest, rfl⟩
    · exact .nothing
    · exact .semicolon
    · exact .lineComment rest
    · exact .blockComment rest

private theorem EndsClause.endsWord (h : EndsClause cs) : EndsWord cs := by
  cases h with
  | nothing => rfl
  | semicolon => exact rfl
  | lineComment cs => exact rfl
  | blockComment cs => exact rfl

private theorem EndsClause.head?_not_inline (h : EndsClause cs) :
    cs.head?.all fun c => !isInlineSpace c := by
  cases h with
  | nothing => rfl
  | semicolon => rfl
  | lineComment cs => rfl
  | blockComment cs => rfl

/-- Where no blank and no word character follows, the test looks only at what does follow. -/
theorem ClauseStart.isPackageLine_append (s : ClauseStart) (hword : EndsWord cs)
    (hspace : cs.head?.all fun c => !isInlineSpace c) :
    isPackageLine (s.text ++ cs) = true ↔ EndsClause cs := by
  have hkeyword : "package".toList.isPrefixOf? ((s.text ++ cs).dropWhile isInlineSpace) =
      some (s.space ++ (s.word.text ++ (s.trailing ++ cs))) := by
    simp only [ClauseStart.text, List.append_assoc]
    rw [dropWhile_inlineSpace s.indent_inline, isPrefixOf?_eq_some]
    rfl
  have hname := dropWhile_inlineSpace s.space_inline s.word (s.trailing ++ cs)
  have hafter : (s.word.text ++ (s.trailing ++ cs)).dropWhile isWord = s.trailing ++ cs :=
    congrArg Span.rest (runOf_word s.word (endsWord_of_inlineSpace s.trailing_inline hword))
  have hbehind : (s.trailing ++ cs).dropWhile isInlineSpace = cs :=
    congrArg Span.rest (runOf_of_stop s.trailing_inline hspace)
  have hblank : (s.space ++ (s.word.text ++ (s.trailing ++ cs))).head?.any
      isInlineSpace = true := by
    obtain ⟨d, ds, hd⟩ := List.exists_cons_of_ne_nil s.space_ne_nil
    have hinline := s.space_inline d (by simp [hd])
    simp [hd, hinline]
  have hstart : (s.word.text ++ (s.trailing ++ cs)).head?.any isWordStart = true := by
    simp [Word.text, s.word.opens]
  unfold isPackageLine
  rw [hkeyword, endsClause_iff]
  simp only [hname, hafter, hbehind, hblank, hstart, Bool.true_and]

/-- The package-line test holds of the lines of the grammar and of no others. -/
theorem isPackageLine_iff {line : List Char} :
    isPackageLine line = true ↔ IsClauseLine line := by
  constructor
  · intro h
    unfold isPackageLine at h
    split at h
    · contradiction
    · rename_i cs hkeyword
      simp only [Bool.and_eq_true] at h
      obtain ⟨⟨hspace, hstart⟩, hends⟩ := h
      obtain ⟨indent, hindent, hline⟩ := exists_inlineSpace line
      obtain ⟨space, hinline, hcs⟩ := exists_inlineSpace cs
      obtain ⟨w, hword⟩ := exists_word hstart
      obtain ⟨trailing, htrailing, hbehind⟩ :=
        exists_inlineSpace ((cs.dropWhile isInlineSpace).dropWhile isWord)
      have hne : space ≠ [] := by
        rintro rfl
        rw [hword, List.nil_append, Word.text, List.cons_append] at hcs
        rw [← hcs, List.head?_cons, Option.any_some,
          isInlineSpace_eq_false_of_isWordStart w.opens] at hspace
        contradiction
      refine ⟨⟨indent, space, w, trailing, hindent, hinline, hne, htrailing⟩, _,
        endsClause_iff.2 hends, ?_⟩
      simp only [ClauseStart.text, List.append_assoc]
      rw [hbehind, ← hword, hcs]
      rw [isPrefixOf?_eq_some.1 hkeyword] at hline
      exact hline
  · rintro ⟨s, behind, hends, rfl⟩
    exact (s.isPackageLine_append hends.endsWord hends.head?_not_inline).2 hends

instance (line : List Char) : Decidable (IsClauseLine line) :=
  decidable_of_iff (isPackageLine line = true) isPackageLine_iff

/-! ## The lines of a text -/

/-- The lines of a text below the one on which it begins. -/
def linesBelow (body : List Char) : List (List Char) :=
  (body.splitOn '\n').drop 1

theorem holdsPackageLine_iff :
    holdsPackageLine body = true ↔ ∃ line ∈ linesBelow body, IsClauseLine line := by
  simp only [holdsPackageLine, linesBelow, List.any_eq_true, isPackageLine_iff]

theorem linesBelow_append (body rest : List Char) :
    linesBelow (body ++ '\n' :: rest) = linesBelow body ++ rest.splitOn '\n' := by
  have hne := List.splitOn_ne_nil '\n' body
  rw [linesBelow, List.splitOn_append_cons_self, List.drop_append_of_le_length
    (List.length_pos_iff.2 hne)]
  rfl

end ImportSurvey.Source
