/-!
# Text in UTF-8

Decoding of bytes, strict or lossy. A malformed sequence is the longest beginning of a character's
encoding that its next byte does not continue, or a single byte that begins none; lossy decoding
puts one replacement character in the place of each. Line ends of the other two conventions are
folded into the line feed.
-/

namespace ImportSurvey.Text

/-- The payload of a first byte, and for each byte to follow the range it has to lie in. -/
def leadByte? (b : Nat) : Option (Nat × List (Nat × Nat)) :=
  let any := (0x80, 0xbf)
  if b ≤ 0x7f then some (b, [])
  else if b ≤ 0xc1 then none
  else if b ≤ 0xdf then some (b - 0xc0, [any])
  else if b == 0xe0 then some (0, [(0xa0, 0xbf), any])
  else if b == 0xed then some (0xd, [(0x80, 0x9f), any])
  else if b ≤ 0xef then some (b - 0xe0, [any, any])
  else if b == 0xf0 then some (0, [(0x90, 0xbf), any, any])
  else if b ≤ 0xf3 then some (b - 0xf0, [any, any, any])
  else if b == 0xf4 then some (4, [(0x80, 0x8f), any, any])
  else none

/-- Reads the bytes that have to follow; `none` if one is missing, and the bytes not read. -/
def readTail (payload : Nat) : List (Nat × Nat) → List UInt8 → Option Char × List UInt8
  | [], bytes => (some (Char.ofNat payload), bytes)
  | _ :: _, [] => (none, [])
  | (low, high) :: more, b :: bytes =>
    if low ≤ b.toNat && b.toNat ≤ high then readTail (64 * payload + b.toNat % 64) more bytes
    else (none, b :: bytes)

theorem readTail_length_le (payload : Nat) (ranges : List (Nat × Nat)) (bytes : List UInt8) :
    (readTail payload ranges bytes).2.length ≤ bytes.length := by
  induction ranges generalizing payload bytes with
  | nil => simp [readTail]
  | cons r more ih =>
    cases bytes with
    | nil => simp [readTail]
    | cons b bytes =>
      simp only [readTail]
      split
      · exact Nat.le_succ_of_le (ih _ _)
      · exact Nat.le_refl _

/-- The characters of `bytes`, with `none` for each malformed sequence. -/
def decode : List UInt8 → List (Option Char)
  | [] => []
  | b :: bytes =>
    match leadByte? b.toNat with
    | none => none :: decode bytes
    | some (payload, ranges) =>
      let read := readTail payload ranges bytes
      have := readTail_length_le payload ranges bytes
      read.1 :: decode read.2
termination_by bytes => bytes.length
decreasing_by all_goals (simp only [List.length_cons]; omega)

/-- The text of `bytes` if no sequence is malformed. -/
def decodeStrict? (bytes : List UInt8) : Option (List Char) :=
  (decode bytes).mapM id

def decodeLossy (bytes : List UInt8) : List Char :=
  (decode bytes).map (·.getD '\ufffd')

def encode (cs : List Char) : List UInt8 :=
  cs.flatMap String.utf8EncodeChar

/-- A carriage return, with the line feed after it if there is one, becomes a line feed. -/
def foldLineEnds : List Char → List Char
  | '\r' :: '\n' :: cs => '\n' :: foldLineEnds cs
  | '\r' :: cs => '\n' :: foldLineEnds cs
  | c :: cs => c :: foldLineEnds cs
  | [] => []

end ImportSurvey.Text
