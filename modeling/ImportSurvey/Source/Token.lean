/-!
# Tokens of Go source

A token is a piece of source text with its kind, the offsets between which it stands, counted in
characters, and the line on which it begins. Blanks between tokens belong to none.
-/

namespace ImportSurvey.Source

inductive TokenKind
  | comment
  | blockComment
  | ident
  | string
  | rawString
  | rune
  | punct
  | newline
  | other
deriving DecidableEq, Repr

namespace TokenKind

def name : TokenKind → String
  | comment => "comment"
  | blockComment => "block_comment"
  | ident => "ident"
  | string => "string"
  | rawString => "raw_string"
  | rune => "rune"
  | punct => "punct"
  | newline => "newline"
  | other => "other"

/-- Comments and line ends carry no syntax. -/
def isTrivia : TokenKind → Bool
  | comment | blockComment | newline => true
  | _ => false

/-- The kinds of literal that are written between delimiters. -/
def isDelimited : TokenKind → Bool
  | string | rawString | rune => true
  | _ => false

end TokenKind

/-- `closed` is false for a literal or block comment whose end is missing. -/
structure Token where
  kind : TokenKind
  text : String
  start : Nat
  stop : Nat
  line : Nat
  closed : Bool
deriving DecidableEq, Repr

namespace Token

def isSignificant (t : Token) : Bool :=
  !t.kind.isTrivia

def is (t : Token) (kind : TokenKind) (text : String) : Bool :=
  t.kind == kind && t.text == text

/-- The text between the delimiters of a literal, escapes left as written. -/
def literalValue (t : Token) : String :=
  let inner := t.text.toList.drop 1
  String.ofList (if t.closed then inner.dropLast else inner)

/-- The same token `chars` characters and `lines` lines further on. -/
def shift (chars lines : Nat) (t : Token) : Token :=
  { t with start := t.start + chars, stop := t.stop + chars, line := t.line + lines }

end Token

end ImportSurvey.Source
