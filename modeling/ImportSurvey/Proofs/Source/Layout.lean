import ImportSurvey.Proofs.Source.Lexeme
import ImportSurvey.Proofs.Source.Stream
import Mathlib.Data.List.Chain
/-!
# Tokens and the gaps between them

A text written as a row of lexemes with a gap before each: blanks, line ends, block comments, and
line comments that leave no block open. Read back, the gaps vanish and every lexeme is a token of
its own, provided that something stands between any two words.
-/

namespace ImportSurvey.Source

open Text

variable {rule : CommentRule} {start line : Nat} {rest tail : List Char}

inductive GapPiece
  | blank (c : Char) (isBlank : isGap c = true)
  | lineEnd
  | block (body : List Char) (ends : holds ['*', '/'] body = false)
  | line (text : List Char) (oneLine : '\n' ∉ text)
      (closed : leavesBlockOpen ('/' :: '/' :: text) = false)

def GapPiece.text : GapPiece → List Char
  | .blank c _ => [c]
  | .lineEnd => ['\n']
  | .block body _ => ['/', '*'] ++ body ++ ['*', '/']
  | .line text _ _ => '/' :: '/' :: (text ++ ['\n'])

abbrev Gap := List GapPiece

def Gap.text (g : Gap) : List Char :=
  g.flatMap GapPiece.text

inductive Lexeme
  | word (w : Word)
  | mark (m : Mark)
  | path (l : PathLiteral)

namespace Lexeme

def kind : Lexeme → TokenKind
  | word _ => .ident
  | mark _ => .punct
  | path l => l.kind

def text : Lexeme → List Char
  | word w => w.text
  | mark m => [m.char]
  | path l => l.text

def isWord : Lexeme → Bool
  | word _ => true
  | _ => false

end Lexeme

abbrev Layout := List (Gap × Lexeme)

namespace Layout

def text (xs : Layout) : List Char :=
  xs.flatMap fun x => x.1.text ++ x.2.text

/-- Something stands between any two words that follow one another. -/
def Separated (xs : Layout) : Prop :=
  xs.IsChain fun x y => x.2.isWord = true → y.2.isWord = true → y.1 ≠ []

end Layout

structure Token.Reads (t : Token) (l : Lexeme) : Prop where
  kind : t.kind = l.kind
  text : t.text = String.ofList l.text
  closed : t.closed = true

/-- The tokens `ts` were read from the lexemes `ls`, and `more` follows them. -/
inductive Spells (more : List Token) : List Lexeme → List Token → Prop
  | nil : Spells more [] more
  | cons {l : Lexeme} {ls : List Lexeme} {t : Token} {ts : List Token} (head : t.Reads l)
      (tail : Spells more ls ts) : Spells more (l :: ls) (t :: ts)

theorem Spells.uncons {more ts : List Token} {l : Lexeme} {ls : List Lexeme}
    (h : Spells more (l :: ls) ts) :
    ∃ t rest, ts = t :: rest ∧ t.Reads l ∧ Spells more ls rest := by
  cases h with
  | cons head tail => exact ⟨_, _, rfl, head, tail⟩

/-! ## Where a word ends -/

theorem endsWord_gapPiece (p : GapPiece) (rest : List Char) : EndsWord (p.text ++ rest) := by
  cases p with
  | blank c isBlank => simp [EndsWord, GapPiece.text, isWord_eq_false_of_isGap isBlank]
  | lineEnd => rfl
  | block body ends => rfl
  | line text oneLine closed => rfl

theorem endsWord_lexeme {l : Lexeme} (h : l.isWord = false) (rest : List Char) :
    EndsWord (l.text ++ rest) := by
  cases l with
  | word w => simp [Lexeme.isWord] at h
  | mark m => cases m <;> rfl
  | path l => cases l <;> rfl

theorem endsWord_layout {x : Gap × Lexeme} {xs : Layout} (hsep : Layout.Separated (x :: xs))
    (hword : x.2.isWord = true) (htail : EndsWord tail) : EndsWord (xs.text ++ tail) := by
  cases xs with
  | nil => exact htail
  | cons y ys =>
    obtain ⟨⟨g, l⟩, hy⟩ : ∃ z, y = z := ⟨y, rfl⟩
    subst hy
    rw [Layout.text, List.flatMap_cons, List.append_assoc, List.append_assoc]
    cases g with
    | cons p g =>
      rw [Gap.text, List.flatMap_cons, List.append_assoc]
      exact endsWord_gapPiece p _
    | nil =>
      have hl : l.isWord = false := by
        rw [Bool.eq_false_iff]
        intro hl
        exact (List.isChain_cons_cons.1 hsep).1 hword hl rfl
      exact endsWord_lexeme hl _

/-! ## Reading a row back -/

theorem significant_gapPiece (p : GapPiece) (rest : List Char) :
    (tokensFrom rule start line (p.text ++ rest)).filter Token.isSignificant =
      (tokensFrom rule (start + p.text.length) (line + p.text.count '\n') rest).filter
        Token.isSignificant := by
  cases p with
  | blank c isBlank =>
    have hcount : [c].count '\n' = 0 := by
      rw [List.count_eq_zero, List.mem_singleton]
      exact (ne_newline_of_isGap isBlank).symm
    change (tokensFrom rule start line (c :: rest)).filter _ = _
    rw [tokensFrom_gap isBlank]
    simp only [GapPiece.text, hcount, List.length_singleton, Nat.add_zero]
  | lineEnd =>
    change (tokensFrom rule start line ('\n' :: rest)).filter _ = _
    rw [tokensFrom_of_lexeme (by decide) (lexeme_newline rest)]
    rfl
  | block body ends =>
    have htext : (GapPiece.block body ends).text ++ rest =
        '/' :: '*' :: (body ++ '*' :: '/' :: rest) := by
      simp [GapPiece.text]
    rw [htext, tokensFrom_of_lexeme (by decide) (lexeme_block ends rest)]
    rfl
  | line text oneLine closed =>
    have htext : (GapPiece.line text oneLine closed).text ++ rest =
        '/' :: '/' :: (text ++ '\n' :: rest) := by
      simp [GapPiece.text]
    have hlength : (GapPiece.line text oneLine closed).text.length =
        ('/' :: '/' :: text).length + 1 := by
      simp [GapPiece.text]
    have hcount : (GapPiece.line text oneLine closed).text.count '\n' =
        ('/' :: '/' :: text).count '\n' + 1 := by
      simp [GapPiece.text]
    rw [htext, hlength, hcount, tokensFrom_of_lexeme (by decide)
      (lexeme_lineComment oneLine closed rest), tokensFrom_of_lexeme (by decide)
      (lexeme_newline rest)]
    rfl

theorem significant_gap (g : Gap) (start line : Nat) (rest : List Char) :
    (tokensFrom rule start line (g.text ++ rest)).filter Token.isSignificant =
      (tokensFrom rule (start + g.text.length) (line + g.text.count '\n') rest).filter
        Token.isSignificant := by
  induction g generalizing start line with
  | nil => rfl
  | cons p g ih =>
    have htext : Gap.text (p :: g) = p.text ++ Gap.text g := rfl
    rw [htext, List.append_assoc, significant_gapPiece, ih, List.length_append,
      List.count_append, Nat.add_assoc, Nat.add_assoc]

theorem tokensFrom_lexemeText (l : Lexeme) (h : l.isWord = true → EndsWord rest) :
    tokensFrom rule start line (l.text ++ rest) =
      tokenAt start line l.kind l.text true ::
        tokensFrom rule (start + l.text.length) (line + l.text.count '\n') rest := by
  cases l with
  | word w =>
    exact tokensFrom_of_lexeme (isGap_eq_false_of_isWordStart w.opens) (lexeme_word w (h rfl))
  | mark m => exact tokensFrom_of_lexeme (isGap_mark m) (lexeme_mark m rest)
  | path l =>
    have htext : l.text ++ rest = l.quote :: (l.path ++ l.quote :: rest) := by
      simp [PathLiteral.text]
    have hgap : isGap l.quote = false := by
      cases l <;> rfl
    change tokensFrom rule start line (l.text ++ rest) = _
    rw [htext]
    exact tokensFrom_of_lexeme hgap (lexeme_path l rest)

/-- The first lexeme of a row is the first significant token of its text. -/
theorem significant_layout_cons {g : Gap} {l : Lexeme} {xs : Layout}
    (hsep : Layout.Separated ((g, l) :: xs)) (htail : EndsWord tail) (start line : Nat) :
    (tokensFrom rule start line (Layout.text ((g, l) :: xs) ++ tail)).filter
        Token.isSignificant =
      tokenAt (start + g.text.length) (line + g.text.count '\n') l.kind l.text true ::
        (tokensFrom rule (start + (g.text ++ l.text).length)
          (line + (g.text ++ l.text).count '\n') (xs.text ++ tail)).filter
            Token.isSignificant := by
  have htext : Layout.text ((g, l) :: xs) ++ tail = g.text ++ (l.text ++ (xs.text ++ tail)) := by
    simp [Layout.text]
  have hsignificant : (tokenAt (start + g.text.length) (line + g.text.count '\n') l.kind l.text
      true).isSignificant = true := by
    cases l with
    | word w => rfl
    | mark m => rfl
    | path l => cases l <;> rfl
  rw [htext, significant_gap, tokensFrom_lexemeText l fun hword =>
    endsWord_layout hsep hword htail, List.filter_cons_of_pos hsignificant, List.length_append,
    List.count_append, Nat.add_assoc, Nat.add_assoc]

theorem spells_layout (rule : CommentRule) {xs : Layout} (hsep : xs.Separated)
    (htail : EndsWord tail) (start line : Nat) :
    Spells ((tokensFrom rule (start + xs.text.length) (line + xs.text.count '\n') tail).filter
        Token.isSignificant) (xs.map Prod.snd)
      ((tokensFrom rule start line (xs.text ++ tail)).filter Token.isSignificant) := by
  induction xs generalizing start line with
  | nil => exact .nil
  | cons x xs ih =>
    obtain ⟨g, l⟩ := x
    rw [significant_layout_cons hsep htail]
    refine .cons ⟨rfl, rfl, rfl⟩ ?_
    have htext : Layout.text ((g, l) :: xs) = (g.text ++ l.text) ++ Layout.text xs := rfl
    have h := ih hsep.tail (start + (g.text ++ l.text).length)
      (line + (g.text ++ l.text).count '\n')
    rw [htext, List.length_append, List.count_append, ← Nat.add_assoc, ← Nat.add_assoc]
    exact h

end ImportSurvey.Source
