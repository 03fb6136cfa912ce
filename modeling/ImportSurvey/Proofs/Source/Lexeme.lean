import ImportSurvey.Proofs.Text.Cut
import ImportSurvey.Source.Imports
/-!
# One lexeme at a time

What the lexer cuts from the front of a text that begins with a word, a punctuation mark, a
literal, a line end or a comment. A word ends where no word character follows, and a comment that
leaves no block open obeys every rule alike.
-/

namespace ImportSurvey.Source

open Text

variable {rule : CommentRule} {c : Char} {cs rest : List Char} {p : Char → Bool}

/-- A text that does not begin with a word character, so that a word in front of it is over. -/
def EndsWord (rest : List Char) : Prop :=
  rest.head?.all fun c => !isWord c

/-! ## Runs -/

theorem runOf_of_stop (h : ∀ c ∈ cs, p c = true) (hrest : rest.head?.all fun c => !p c) :
    runOf p (cs ++ rest) = ⟨cs, rest, true⟩ := by
  have hstop : rest.takeWhile p = [] ∧ rest.dropWhile p = rest := by
    cases rest with
    | nil => exact ⟨rfl, rfl⟩
    | cons d rest =>
      have hd : p d = false := by simpa using hrest
      simp [hd]
  rw [runOf, List.takeWhile_append_of_pos h, List.dropWhile_append_of_pos h, hstop.1, hstop.2,
    List.append_nil]

theorem runOf_line (h : '\n' ∉ cs) (rest : List Char) :
    runOf (· != '\n') (cs ++ '\n' :: rest) = ⟨cs, '\n' :: rest, true⟩ := by
  refine runOf_of_stop (fun c hc => ?_) rfl
  rw [bne_iff_ne]
  rintro rfl
  exact h hc

/-! ## Words -/

structure Word where
  first : Char
  more : List Char
  opens : isWordStart first = true
  continues : ∀ c ∈ more, isWord c = true

namespace Word

def text (w : Word) : List Char :=
  w.first :: w.more

def ofPackage : Word :=
  ⟨'p', "ackage".toList, by decide, List.all_eq_true.1 (by decide)⟩

def ofImport : Word :=
  ⟨'i', "mport".toList, by decide, List.all_eq_true.1 (by decide)⟩

end Word

structure Name extends Word where
  free : isKeyword (String.ofList (first :: more)) = false

def Name.string (n : Name) : String :=
  String.ofList n.toWord.text

theorem isGap_eq_false_of_isWordStart (h : isWordStart c = true) : isGap c = false := by
  rw [Bool.eq_false_iff]
  intro hgap
  simp only [isGap, Bool.or_eq_true, beq_iff_eq] at hgap
  rcases hgap with ((((rfl | rfl) | rfl) | rfl) | rfl) | rfl
  all_goals exact absurd h (by decide +kernel)

theorem isWord_eq_false_of_isGap (h : isGap c = true) : isWord c = false := by
  simp only [isGap, Bool.or_eq_true, beq_iff_eq] at h
  rcases h with ((((rfl | rfl) | rfl) | rfl) | rfl) | rfl
  all_goals decide +kernel

theorem Word.isWord_of_mem {w : Word} (h : c ∈ w.text) : isWord c = true := by
  rcases List.mem_cons.1 h with rfl | hmore
  · exact isWord_of_isWordStart w.opens
  · exact w.continues c hmore

theorem runOf_word (w : Word) (h : EndsWord rest) :
    runOf isWord (w.text ++ rest) = ⟨w.text, rest, true⟩ :=
  runOf_of_stop (fun _ hc => w.isWord_of_mem hc) h

theorem lexeme_word (w : Word) (h : EndsWord rest) :
    lexeme rule w.first (w.more ++ rest) = (.ident, ⟨w.text, rest, true⟩) := by
  have hne : ∀ d, isWordStart d = false → (w.first == d) = false := by
    intro d hd
    rw [beq_eq_false_iff_ne]
    rintro rfl
    rw [w.opens] at hd
    contradiction
  have hrun : runOf isWord (w.first :: (w.more ++ rest)) = ⟨w.text, rest, true⟩ := runOf_word w h
  simp only [lexeme, hne '\n' (by decide), hne '/' (by decide), hne '\x22' (by decide),
    hne '\x27' (by decide), hne '\x60' (by decide), w.opens, hrun, Bool.false_and,
    Bool.false_eq_true, if_false, if_true]

/-! ## Punctuation and literals -/

inductive Mark
  | semicolon
  | dot
  | opening
  | closing
deriving DecidableEq

def Mark.char : Mark → Char
  | semicolon => ';'
  | dot => '.'
  | opening => '('
  | closing => ')'

theorem isGap_mark (m : Mark) : isGap m.char = false := by
  cases m <;> decide

theorem lexeme_mark (m : Mark) (rest : List Char) :
    lexeme rule m.char rest = (.punct, ⟨[m.char], rest, true⟩) := by
  cases m <;> rfl

inductive PathLiteral
  | quoted (path : List Char) (plain : ∀ c ∈ path, c ≠ '\x22' ∧ c ≠ '\\' ∧ c ≠ '\n')
  | raw (path : List Char) (plain : '\x60' ∉ path)

namespace PathLiteral

def path : PathLiteral → List Char
  | quoted path _ => path
  | raw path _ => path

def quote : PathLiteral → Char
  | quoted .. => '\x22'
  | raw .. => '\x60'

def kind : PathLiteral → TokenKind
  | quoted .. => .string
  | raw .. => .rawString

def text (p : PathLiteral) : List Char :=
  p.quote :: (p.path ++ [p.quote])

end PathLiteral

private theorem interpretedTail_plain {quote : Char}
    (h : ∀ c ∈ cs, c ≠ quote ∧ c ≠ '\\' ∧ c ≠ '\n') (hquote : quote ≠ '\\')
    (rest : List Char) :
    interpretedTail quote (cs ++ quote :: rest) = ⟨cs ++ [quote], rest, true⟩ := by
  induction cs with
  | nil => simp [interpretedTail, hquote]
  | cons c cs ih =>
    obtain ⟨hc, hbackslash, hline⟩ := h c (by simp)
    have htail := ih fun d hd => h d (List.mem_cons_of_mem _ hd)
    simp [interpretedTail, hc, hbackslash, hline, htail]

theorem lexeme_path (l : PathLiteral) (rest : List Char) :
    lexeme rule l.quote (l.path ++ l.quote :: rest) = (l.kind, ⟨l.text, rest, true⟩) := by
  cases l with
  | quoted path plain =>
    have htail := interpretedTail_plain plain (by decide) rest
    change (TokenKind.string, interpreted '\x22' (path ++ '\x22' :: rest)) = _
    rw [interpreted, htail]
    rfl
  | raw path plain =>
    have hcut := cut?_single plain rest
    change (TokenKind.rawString, delimited ['\x60'] ['\x60'] (path ++ '\x60' :: rest)) = _
    rw [delimited, hcut]
    rfl

/-! ## Line ends and comments -/

theorem exists_of_isTrivia (h : (lexeme rule c cs).1.isTrivia = true) :
    c = '\n' ∨ c = '/' ∧ (∃ rest, cs = '/' :: rest) ∨ c = '/' ∧ ∃ rest, cs = '*' :: rest := by
  have hhead : ∀ d, cs.head? = some d → ∃ rest, cs = d :: rest :=
    fun d hd => List.head?_eq_some_iff.1 hd
  unfold lexeme at h
  split at h
  · exact .inl (by simp_all)
  · split at h
    · simp only [Bool.and_eq_true, beq_iff_eq] at *
      rename_i hslash
      exact .inr (.inl ⟨hslash.1, hhead _ hslash.2⟩)
    · split at h
      · simp only [Bool.and_eq_true, beq_iff_eq] at *
        rename_i hslash
        exact .inr (.inr ⟨hslash.1, hhead _ hslash.2⟩)
      · repeat' split at h
        all_goals simp [TokenKind.isTrivia] at h

theorem head?_rest_of_comment (h : (lexeme .ownLine c cs).1 = .comment) :
    (lexeme .ownLine c cs).2.rest.head?.all (· == '\n') := by
  have htrivia : (lexeme .ownLine c cs).1.isTrivia = true := by
    rw [h]
    rfl
  rcases exists_of_isTrivia htrivia with rfl | ⟨rfl, rest, rfl⟩ | ⟨rfl, rest, rfl⟩
  · contradiction
  · have hstop := List.head?_dropWhile_not (· != '\n') ('/' :: '/' :: rest)
    change (('/' :: '/' :: rest).dropWhile (· != '\n')).head?.all (· == '\n')
    cases hhead : (('/' :: '/' :: rest).dropWhile (· != '\n')).head? with
    | none => rfl
    | some d =>
      rw [hhead] at hstop
      simpa using hstop
  · contradiction

/-- A token without syntax does not end within the end of a block. -/
theorem head?_rest_ne_slash (htrivia : (lexeme .ownLine c cs).1.isTrivia = true)
    (hlast : (lexeme .ownLine c cs).2.text.getLast? = some '*') :
    (lexeme .ownLine c cs).2.rest.head? ≠ some '/' := by
  rcases exists_of_isTrivia htrivia with rfl | ⟨rfl, rest, rfl⟩ | ⟨rfl, rest, rfl⟩
  · exact absurd (Option.some.inj hlast) (by decide)
  · intro hslash
    have hline : (lexeme .ownLine '/' ('/' :: rest)).2.rest.head?.all (· == '\n') :=
      head?_rest_of_comment rfl
    rw [hslash] at hline
    contradiction
  · change (delimited ['/', '*'] ['*', '/'] rest).text.getLast? = some '*' at hlast
    change (delimited ['/', '*'] ['*', '/'] rest).rest.head? ≠ some '/'
    unfold delimited at hlast ⊢
    cases hcut : cut? ['*', '/'] rest with
    | none => exact (by decide : (none : Option Char) ≠ some '/')
    | some x =>
      rw [hcut] at hlast
      change (['/', '*'] ++ x.1 ++ ['*', '/']).getLast? = some '*' at hlast
      rw [List.getLast?_append] at hlast
      exact absurd (Option.some.inj hlast) (by decide)

theorem lexeme_newline (rest : List Char) :
    lexeme rule '\n' rest = (.newline, ⟨['\n'], rest, true⟩) :=
  rfl

theorem lexeme_block {body : List Char} (h : holds ['*', '/'] body = false) (rest : List Char) :
    lexeme rule '/' ('*' :: (body ++ '*' :: '/' :: rest)) =
      (.blockComment, ⟨['/', '*'] ++ body ++ ['*', '/'], rest, true⟩) := by
  have hcut := cut?_pair_self (by decide) (cut?_eq_none_of_holds h) rest
  change (TokenKind.blockComment,
    delimited ['/', '*'] ['*', '/'] (body ++ '*' :: '/' :: rest)) = _
  rw [delimited, hcut]

theorem extendDirective_of_closed {comment : Span} (h : leavesBlockOpen comment.text = false) :
    extendDirective comment = comment := by
  unfold extendDirective
  rw [if_neg (by simp [h])]

theorem extendDirective_of_unclosed {comment : Span}
    (h : cut? ['*', '/'] comment.rest = none) : extendDirective comment = comment := by
  unfold extendDirective
  rw [h]
  split
  · rfl
  · rfl

theorem extendDirective_of_packageLine {comment : Span} {body : List Char}
    (hcut : cut? ['*', '/'] comment.rest = some (body, rest))
    (hline : holdsPackageLine body = true) : extendDirective comment = comment := by
  unfold extendDirective
  rw [hcut]
  split
  · exact if_pos hline
  · rfl

theorem extendDirective_of_open {comment : Span} {body : List Char}
    (h : leavesBlockOpen comment.text = true)
    (hcut : cut? ['*', '/'] comment.rest = some (body, rest))
    (hline : holdsPackageLine body = false) :
    extendDirective comment = ⟨comment.text ++ body ++ ['*', '/'], rest, true⟩ := by
  unfold extendDirective
  rw [if_pos h, hcut]
  exact if_neg (by simp [hline])

private theorem lineComment_closed (hline : '\n' ∉ cs) (hclosed : leavesBlockOpen cs = false)
    (rest : List Char) :
    lineComment rule (cs ++ '\n' :: rest) = ⟨cs, '\n' :: rest, true⟩ := by
  have hrun := runOf_line hline rest
  cases rule with
  | ownLine => exact hrun
  | openDirective =>
    change extendDirective (runOf (· != '\n') (cs ++ '\n' :: rest)) = _
    rw [hrun]
    exact extendDirective_of_closed hclosed

theorem lexeme_lineComment {text : List Char} (hline : '\n' ∉ text)
    (hclosed : leavesBlockOpen ('/' :: '/' :: text) = false) (rest : List Char) :
    lexeme rule '/' ('/' :: (text ++ '\n' :: rest)) =
      (.comment, ⟨'/' :: '/' :: text, '\n' :: rest, true⟩) := by
  have hcomment : lineComment rule ('/' :: '/' :: (text ++ '\n' :: rest)) =
      ⟨'/' :: '/' :: text, '\n' :: rest, true⟩ :=
    lineComment_closed (by simpa using hline) hclosed rest
  change (TokenKind.comment, lineComment rule ('/' :: '/' :: (text ++ '\n' :: rest))) = _
  rw [hcomment]

end ImportSurvey.Source
