import ImportSurvey.Source.Directive
import ImportSurvey.Source.Token
import ImportSurvey.Text.Cut
import ImportSurvey.Text.Word
/-!
# Cutting source text into tokens

The lexer accepts every text. An interpreted literal that is not closed ends with its line, and a
block comment or raw string that is not closed ends with the text. A `+build` comment that opens a
block comment and leaves it open on its line takes the text up to the end of that block with it,
unless a package clause stands in between.

The main statements are that a lexeme is never empty and that lexeme and rest together are the text
it was read from.
-/

namespace ImportSurvey.Source

open Text

/-- How far a line comment reaches: to the end of its own line always, or beyond it where a
`+build` comment leaves a block open. -/
inductive CommentRule
  | ownLine
  | openDirective
deriving DecidableEq, Repr

/-- A piece cut from the front of a text, and the rest. -/
structure Span where
  text : List Char
  rest : List Char
  closed : Bool

def isGap (c : Char) : Bool :=
  c == ' ' || c == '\t' || c == '\r' || c == '\x0c' || c == '\x0b' || c == '\ufeff'

def isPunct (c : Char) : Bool :=
  "()[]\x7b\x7d;,.=:+-*/%&|^<>!~".toList.contains c

def isInlineSpace (c : Char) : Bool :=
  c == ' ' || c == '\t'

/-- The leading run of characters that satisfy `p`. -/
def runOf (p : Char → Bool) (cs : List Char) : Span :=
  ⟨cs.takeWhile p, cs.dropWhile p, true⟩

/-- `cs` up to and with the first `closer`, behind `opener`. -/
def delimited (opener closer cs : List Char) : Span :=
  match cut? closer cs with
  | some (body, rest) => ⟨opener ++ body ++ closer, rest, true⟩
  | none => ⟨opener ++ cs, [], false⟩

/-- The part of an interpreted literal behind its opening quote. A backslash takes the next
character with it, whatever it is. -/
def interpretedTail (quote : Char) : List Char → Span
  | [] => ⟨[], [], false⟩
  | ['\\'] => ⟨['\\'], [], false⟩
  | '\\' :: c :: cs =>
    let tail := interpretedTail quote cs
    ⟨'\\' :: c :: tail.text, tail.rest, tail.closed⟩
  | c :: cs =>
    if c == quote then ⟨[c], cs, true⟩
    else if c == '\n' then ⟨[], c :: cs, false⟩
    else
      let tail := interpretedTail quote cs
      ⟨c :: tail.text, tail.rest, tail.closed⟩

def interpreted (quote : Char) (cs : List Char) : Span :=
  let tail := interpretedTail quote cs
  ⟨quote :: tail.text, tail.rest, tail.closed⟩

/-- Whether a line is a package clause and nothing else: the keyword and a name, then nothing, a
semicolon, or a comment. -/
def isPackageLine (line : List Char) : Bool :=
  match "package".toList.isPrefixOf? (line.dropWhile isInlineSpace) with
  | none => false
  | some cs =>
    let name := cs.dropWhile isInlineSpace
    let after := (name.dropWhile isWord).dropWhile isInlineSpace
    (cs.head?.any isInlineSpace) && (name.head?.any isWordStart) &&
      (after.isEmpty || after == [';'] || ['/', '/'].isPrefixOf after ||
        ['/', '*'].isPrefixOf after)

/-- Whether `cs`, which begins at a line's end, holds a package clause on a line of its own. -/
def holdsPackageLine (cs : List Char) : Bool :=
  ((cs.splitOn '\n').drop 1).any isPackageLine

/-- Whether a comment is a `+build` directive that opens a block comment and does not close it. -/
def leavesBlockOpen (comment : List Char) : Bool :=
  (plusBuildBody? comment).isSome &&
    (afterLast? ['/', '*'] comment).any fun tail => !holds ['*', '/'] tail

/-- Lets a directive that leaves a block open run to the end of that block. -/
def extendDirective (comment : Span) : Span :=
  if leavesBlockOpen comment.text then
    match cut? ['*', '/'] comment.rest with
    | some (body, rest) =>
      if holdsPackageLine body then comment
      else ⟨comment.text ++ body ++ ['*', '/'], rest, true⟩
    | none => comment
  else comment

def lineComment (rule : CommentRule) (cs : List Char) : Span :=
  let comment := runOf (· != '\n') cs
  match rule with
  | .ownLine => comment
  | .openDirective => extendDirective comment

/-- The token that begins with `c`, which is not a gap, in the text `c :: cs`. -/
def lexeme (rule : CommentRule) (c : Char) (cs : List Char) : TokenKind × Span :=
  if c == '\n' then (.newline, ⟨[c], cs, true⟩)
  else if c == '/' && cs.head? == some '/' then (.comment, lineComment rule (c :: cs))
  else if c == '/' && cs.head? == some '*' then
    (.blockComment, delimited ['/', '*'] ['*', '/'] (cs.drop 1))
  else if c == '\x22' then (.string, interpreted c cs)
  else if c == '\x27' then (.rune, interpreted c cs)
  else if c == '\x60' then (.rawString, delimited ['\x60'] ['\x60'] cs)
  else if isWordStart c then (.ident, runOf isWord (c :: cs))
  else if isDecimal c then (.other, runOf isTagChar (c :: cs))
  else (if isPunct c then .punct else .other, ⟨[c], cs, true⟩)

/-! ## Nothing is lost -/

@[simp] theorem runOf_append (p : Char → Bool) (cs : List Char) :
    (runOf p cs).text ++ (runOf p cs).rest = cs :=
  List.takeWhile_append_dropWhile

@[simp] theorem delimited_append (opener closer cs : List Char) :
    (delimited opener closer cs).text ++ (delimited opener closer cs).rest = opener ++ cs := by
  unfold delimited
  split
  · rename_i h
    simp [cut?_eq_append h]
  · simp

@[simp] theorem interpretedTail_append (quote : Char) (cs : List Char) :
    (interpretedTail quote cs).text ++ (interpretedTail quote cs).rest = cs := by
  fun_induction interpretedTail quote cs with
  | case1 => rfl
  | case2 => rfl
  | case3 c cs tail ih => simp [tail, ih]
  | case4 c cs hne₁ hne₂ hquote => simp
  | case5 c cs hne₁ hne₂ hquote hline => simp
  | case6 c cs hne₁ hne₂ hquote hline tail ih => simp [tail, ih]

@[simp] theorem interpreted_append (quote : Char) (cs : List Char) :
    (interpreted quote cs).text ++ (interpreted quote cs).rest = quote :: cs := by
  simp [interpreted]

theorem extendDirective_append (comment : Span) :
    (extendDirective comment).text ++ (extendDirective comment).rest =
      comment.text ++ comment.rest := by
  unfold extendDirective
  split
  · split
    · rename_i h
      split
      · rfl
      · simp [cut?_eq_append h]
    · rfl
  · rfl

@[simp] theorem lineComment_append (rule : CommentRule) (cs : List Char) :
    (lineComment rule cs).text ++ (lineComment rule cs).rest = cs := by
  cases rule with
  | ownLine => exact runOf_append _ cs
  | openDirective => exact (extendDirective_append _).trans (runOf_append _ cs)

theorem lexeme_append (rule : CommentRule) (c : Char) (cs : List Char) :
    (lexeme rule c cs).2.text ++ (lexeme rule c cs).2.rest = c :: cs := by
  unfold lexeme
  repeat' split
  case isFalse.isFalse.isTrue h =>
    simp only [Bool.and_eq_true, beq_iff_eq] at h
    obtain ⟨rfl, h⟩ := h
    cases cs with
    | nil => simp at h
    | cons d cs =>
      simp only [List.head?_cons, Option.some.injEq] at h
      simp [h]
  all_goals simp_all

/-! ## No lexeme is empty -/

theorem runOf_ne_nil {p : Char → Bool} {c : Char} (h : p c = true) (cs : List Char) :
    (runOf p (c :: cs)).text ≠ [] := by
  simp [runOf, h]

theorem extendDirective_ne_nil {comment : Span} (h : comment.text ≠ []) :
    (extendDirective comment).text ≠ [] := by
  unfold extendDirective
  repeat' split
  all_goals simp [h]

theorem lineComment_ne_nil (rule : CommentRule) {c : Char} (h : c ≠ '\n') (cs : List Char) :
    (lineComment rule (c :: cs)).text ≠ [] := by
  have hrun : (runOf (· != '\n') (c :: cs)).text ≠ [] := runOf_ne_nil (by simpa using h) cs
  cases rule with
  | ownLine => exact hrun
  | openDirective => exact extendDirective_ne_nil hrun

theorem delimited_ne_nil {opener : List Char} (h : opener ≠ []) (closer cs : List Char) :
    (delimited opener closer cs).text ≠ [] := by
  unfold delimited
  split <;> simp [h]

theorem lexeme_ne_nil (rule : CommentRule) (c : Char) (cs : List Char) :
    (lexeme rule c cs).2.text ≠ [] := by
  unfold lexeme
  repeat' split
  case isFalse.isTrue h =>
    simp only [Bool.and_eq_true, beq_iff_eq] at h
    exact lineComment_ne_nil rule (by rw [h.1]; decide) cs
  case isFalse.isFalse.isTrue => exact delimited_ne_nil (by simp) _ _
  case isFalse.isFalse.isFalse.isFalse.isFalse.isTrue => exact delimited_ne_nil (by simp) _ _
  case isFalse.isFalse.isFalse.isFalse.isFalse.isFalse.isTrue h =>
    exact runOf_ne_nil (isWord_of_isWordStart h) cs
  case isFalse.isFalse.isFalse.isFalse.isFalse.isFalse.isFalse.isTrue h =>
    exact runOf_ne_nil (isTagChar_of_isWord (isWord_of_isDecimal h)) cs
  all_goals simp [interpreted]

theorem lexeme_rest_length_lt (rule : CommentRule) (c : Char) (cs : List Char) :
    (lexeme rule c cs).2.rest.length < (c :: cs).length := by
  have happend := congrArg List.length (lexeme_append rule c cs)
  have hpos := List.length_pos_iff.2 (lexeme_ne_nil rule c cs)
  rw [List.length_append] at happend
  omega

/-! ## Token streams -/

/-- The tokens of `cs`, which begins at offset `start` on line `line`. -/
def tokensFrom (rule : CommentRule) (start line : Nat) : List Char → List Token
  | [] => []
  | c :: cs =>
    if isGap c then tokensFrom rule (start + 1) line cs
    else
      have := lexeme_rest_length_lt rule c cs
      let lexed := lexeme rule c cs
      let stop := start + lexed.2.text.length
      ⟨lexed.1, String.ofList lexed.2.text, start, stop, line, lexed.2.closed⟩ ::
        tokensFrom rule stop (line + lexed.2.text.count '\n') lexed.2.rest
termination_by cs => cs.length
decreasing_by all_goals (simp only [List.length_cons] at *; omega)

/-- The tokens of a source text. -/
def tokens (source : String) : List Token :=
  tokensFrom .openDirective 0 1 source.toList

/-- The tokens of a source text if no comment reached beyond its line. -/
def plainTokens (source : String) : List Token :=
  tokensFrom .ownLine 0 1 source.toList

/-- The tokens without comments and line ends. -/
def significantTokens (source : String) : List Token :=
  (tokens source).filter Token.isSignificant

/-- The directives of the leading comments, which the first other token ends. -/
def directivesOf (ts : List Token) : List Directive :=
  (ts.takeWhile fun t => t.kind.isTrivia).filterMap fun t =>
    if t.kind == .comment then
      (directiveForm? t.text.toList).map fun form => ⟨form, t.text, t.line⟩
    else none

def directives (source : String) : List Directive :=
  directivesOf (tokens source)

end ImportSurvey.Source
