/-!
# Wildcard patterns

Patterns over the characters of one name: a star stands for any run of characters, a question mark
for one, and a bracket for one character of a class. A class lists characters and ranges; an
exclamation mark in front turns it into its complement. A range whose ends are out of order holds
nothing and is dropped, and an exclamation mark that comes to stand first by this complements the
class as well. A bracket that is never closed stands for itself.
-/

namespace ImportSurvey.Text

inductive ClassItem
  | char (c : Char)
  | range (low high : Char)
deriving DecidableEq, Repr

inductive GlobPiece
  | run
  | any
  | char (c : Char)
  | oneOf (items : List ClassItem)
  | noneOf (items : List ClassItem)
deriving DecidableEq, Repr

namespace ClassItem

def admits (c : Char) : ClassItem → Bool
  | char d => c == d
  | range low high => low ≤ c && c ≤ high

def isSound : ClassItem → Bool
  | char _ => true
  | range low high => low ≤ high

/-- The characters and ranges listed between brackets; a hyphen at either end is a character. -/
def ofChars : List Char → List ClassItem
  | low :: '-' :: high :: rest => range low high :: ofChars rest
  | c :: rest => char c :: ofChars rest
  | [] => []

end ClassItem

/-- The class a list of items stands for once its empty ranges are dropped. -/
def classOf (complemented : Bool) (items : List ClassItem) : GlobPiece :=
  let sound := items.filter ClassItem.isSound
  if complemented then if sound.isEmpty then .any else .noneOf sound
  else
    match sound with
    | [.char '!'] => .any
    | .char '!' :: rest => .noneOf rest
    | .range '!' high :: rest => .noneOf (.char '-' :: .char high :: rest)
    | _ => .oneOf sound

/-- Cuts `cs` at its first closing bracket, with `lead` put back in front. -/
def closed? (lead cs : List Char) : Option (List Char × List Char) :=
  match cs.dropWhile (· != ']') with
  | [] => none
  | _ :: rest => some (lead ++ cs.takeWhile (· != ']'), rest)

/-- The text between brackets and what follows them. A closing bracket that stands first, or right
after the complement mark, is an ordinary character. -/
def bracket? : List Char → Option (List Char × List Char)
  | '!' :: ']' :: cs => closed? ['!', ']'] cs
  | '!' :: cs => closed? ['!'] cs
  | ']' :: cs => closed? [']'] cs
  | cs => closed? [] cs

theorem closed?_rest_length_le {lead cs inside rest : List Char}
    (h : closed? lead cs = some (inside, rest)) : rest.length ≤ cs.length := by
  unfold closed? at h
  split at h
  · simp at h
  · rename_i hdrop
    simp only [Option.some.injEq, Prod.mk.injEq] at h
    have hle := (List.dropWhile_suffix (l := cs) (· != ']')).length_le
    rw [hdrop, List.length_cons] at hle
    rw [← h.2]
    omega

theorem bracket?_rest_length_le {cs inside rest : List Char}
    (h : bracket? cs = some (inside, rest)) : rest.length ≤ cs.length := by
  unfold bracket? at h
  split at h
  · exact Nat.le_add_right_of_le (Nat.le_add_right_of_le (closed?_rest_length_le h))
  · exact Nat.le_add_right_of_le (closed?_rest_length_le h)
  · exact Nat.le_add_right_of_le (closed?_rest_length_le h)
  · exact closed?_rest_length_le h

/-- The class that the text between brackets describes. -/
def bracketClass : List Char → GlobPiece
  | '!' :: items => classOf true (ClassItem.ofChars items)
  | items => classOf false (ClassItem.ofChars items)

def globPieces : List Char → List GlobPiece
  | [] => []
  | c :: rest =>
    if c == '*' then
      have := (List.dropWhile_suffix (l := rest) (· == '*')).length_le
      .run :: globPieces (rest.dropWhile (· == '*'))
    else if c == '?' then .any :: globPieces rest
    else if c == '[' then
      match h : bracket? rest with
      | none => .char c :: globPieces rest
      | some (inside, after) =>
        have := bracket?_rest_length_le h
        bracketClass inside :: globPieces after
    else .char c :: globPieces rest
termination_by cs => cs.length
decreasing_by all_goals (simp only [List.length_cons]; omega)

def GlobPiece.admits (c : Char) : GlobPiece → Bool
  | run => false
  | any => true
  | char d => c == d
  | oneOf items => items.any (ClassItem.admits c)
  | noneOf items => !items.any (ClassItem.admits c)

/-- Whether some end of `cs`, the whole included, satisfies `p`. -/
def anyEnd (p : List Char → Bool) : List Char → Bool
  | [] => p []
  | c :: cs => p (c :: cs) || anyEnd p cs

def globMatches : List GlobPiece → List Char → Bool
  | [], cs => cs.isEmpty
  | .run :: pieces, cs => anyEnd (globMatches pieces) cs
  | _ :: _, [] => false
  | piece :: pieces, c :: cs => piece.admits c && globMatches pieces cs

/-- Whether `name` as a whole has the form of `pattern`. -/
def matchesGlob (pattern name : String) : Bool :=
  globMatches (globPieces pattern.toList) name.toList

end ImportSurvey.Text
