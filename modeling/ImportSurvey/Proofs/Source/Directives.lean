import ImportSurvey.Proofs.Source.Lexeme
import ImportSurvey.Proofs.Source.Stream
/-!
# The directives of a text

Directives are read from the comments that lead a token stream. They move with the text, and a
comment line put on top of a text adds its own directive, if it is one, and moves the others down.
-/

namespace ImportSurvey.Source

open Text

variable {t : Token} {ts : List Token}

def Directive.shift (lines : Nat) (d : Directive) : Directive :=
  { d with line := d.line + lines }

def directiveOf? (t : Token) : Option Directive :=
  if t.kind == .comment then
    (directiveForm? t.text.toList).map fun form => ⟨form, t.text, t.line⟩
  else none

theorem directivesOf_eq (ts : List Token) :
    directivesOf ts = (ts.takeWhile fun t => t.kind.isTrivia).filterMap directiveOf? := rfl

theorem directivesOf_cons_of_trivia (h : t.isSignificant = false) (ts : List Token) :
    directivesOf (t :: ts) = (directiveOf? t).toList ++ directivesOf ts := by
  have htrivia : t.kind.isTrivia = true := by simpa [Token.isSignificant] using h
  rw [directivesOf_eq, List.takeWhile_cons, if_pos htrivia, List.filterMap_cons, ← directivesOf_eq]
  cases directiveOf? t <;> rfl

theorem directivesOf_cons_of_significant (h : t.isSignificant = true) (ts : List Token) :
    directivesOf (t :: ts) = [] := by
  have htrivia : ¬ t.kind.isTrivia = true := by simpa [Token.isSignificant] using h
  rw [directivesOf_eq, List.takeWhile_cons, if_neg htrivia, List.filterMap_nil]

theorem directivesOf_append {lead : List Token} (h : ∀ t ∈ lead, t.isSignificant = false)
    (ht : t.isSignificant = true) (ts : List Token) :
    directivesOf (lead ++ t :: ts) = directivesOf lead := by
  induction lead with
  | nil => exact directivesOf_cons_of_significant ht ts
  | cons u lead ih =>
    have hu := h u (by simp)
    rw [List.cons_append, directivesOf_cons_of_trivia hu, directivesOf_cons_of_trivia hu,
      ih fun v hv => h v (List.mem_cons_of_mem _ hv)]

theorem directiveOf?_shift (chars lines : Nat) (t : Token) :
    directiveOf? (t.shift chars lines) = (directiveOf? t).map (Directive.shift lines) := by
  by_cases h : t.kind == .comment
  · rw [directiveOf?, directiveOf?, if_pos h, if_pos (by exact h), Option.map_map]
    rfl
  · rw [directiveOf?, directiveOf?, if_neg h, if_neg (by exact h)]
    rfl

theorem directivesOf_shift (chars lines : Nat) (ts : List Token) :
    directivesOf (ts.map (Token.shift chars lines)) =
      (directivesOf ts).map (Directive.shift lines) := by
  induction ts with
  | nil => rfl
  | cons t ts ih =>
    rw [List.map_cons]
    by_cases h : t.isSignificant = true
    · rw [directivesOf_cons_of_significant h, directivesOf_cons_of_significant (t := t.shift _ _) h]
      rfl
    · rw [Bool.not_eq_true] at h
      rw [directivesOf_cons_of_trivia h, directivesOf_cons_of_trivia (t := t.shift _ _) h, ih,
        directiveOf?_shift, List.map_append]
      cases directiveOf? t <;> rfl

theorem tokens_line {l s : String} (hcomment : ['/', '/'] <+: l.toList) (hline : '\n' ∉ l.toList)
    (hclosed : leavesBlockOpen l.toList = false) :
    tokens (l ++ "\n" ++ s) =
      tokenAt 0 1 .comment l.toList true :: tokenAt l.length 1 .newline ['\n'] true ::
        (tokens s).map (Token.shift (l.length + 1) 1) := by
  obtain ⟨text, hcomment⟩ := hcomment
  have htext : l.toList = '/' :: '/' :: text := hcomment.symm
  have hlength : l.length = ('/' :: '/' :: text).length := by
    rw [← htext, String.length_toList]
  have hsource : (l ++ "\n" ++ s).toList = '/' :: '/' :: (text ++ '\n' :: s.toList) := by
    simp [String.toList_append, htext]
  rw [htext] at hline hclosed ⊢
  have hcount : ('/' :: '/' :: text).count '\n' = 0 := List.count_eq_zero.2 hline
  have htail : '\n' ∉ text := fun h => hline (by simp [h])
  rw [tokens, hsource, tokensFrom_of_lexeme (by decide)
    (lexeme_lineComment htail hclosed s.toList), tokensFrom_of_lexeme (by decide)
    (lexeme_newline s.toList), hcount, hlength, Nat.zero_add, Nat.add_zero, tokens,
    ← tokensFrom_shift, Nat.zero_add]
  rfl

/-- A comment line on top of a text adds its directive to those of the text. -/
theorem directives_line {l s : String} (hcomment : ['/', '/'] <+: l.toList)
    (hline : '\n' ∉ l.toList) (hclosed : leavesBlockOpen l.toList = false) :
    directives (l ++ "\n" ++ s) =
      ((directiveForm? l.toList).map fun form => ⟨form, l, 1⟩).toList ++
        (directives s).map (Directive.shift 1) := by
  have hfirst : directiveOf? (tokenAt 0 1 .comment l.toList true) =
      (directiveForm? l.toList).map fun form => ⟨form, l, 1⟩ := by
    simp [directiveOf?, tokenAt]
  rw [directives, tokens_line hcomment hline hclosed, directivesOf_cons_of_trivia rfl,
    directivesOf_cons_of_trivia rfl, directivesOf_shift, hfirst]
  rfl

end ImportSurvey.Source
