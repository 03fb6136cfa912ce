import ImportSurvey.Json.Value
import ImportSurvey.Text.Cut
import ImportSurvey.Text.Reading
/-!
# Reading JSON

The grammar of the data format, with the three numbers that are not finite as further constants. Of
a key that an object repeats the last value counts, at the place of the first. Escapes of UTF-16
units are joined in pairs, and a unit without its partner reads as the replacement character.
-/

namespace ImportSurvey.Json

open Text

def isSpace (c : Char) : Bool :=
  c == ' ' || c == '\t' || c == '\n' || c == '\r'

def skipSpace (cs : List Char) : List Char :=
  cs.dropWhile isSpace

theorem skipSpace_length_le (cs : List Char) : (skipSpace cs).length ≤ cs.length :=
  (List.dropWhile_suffix _).length_le

/-! ## Strings -/

def hexValue? (c : Char) : Option Nat :=
  if c.isDigit then some (c.toNat - 48)
  else if 'a' ≤ c && c ≤ 'f' then some (c.toNat - 87)
  else if 'A' ≤ c && c ≤ 'F' then some (c.toNat - 55)
  else none

def unit? (a b c d : Char) : Option Nat := do
  return ((← hexValue? a) * 16 + (← hexValue? b)) * 256 + (← hexValue? c) * 16 + (← hexValue? d)

def escape? : Char → Option Nat
  | '\x22' => some 0x22
  | '\\' => some 0x5c
  | '/' => some 0x2f
  | 'b' => some 8
  | 'f' => some 12
  | 'n' => some 10
  | 'r' => some 13
  | 't' => some 9
  | _ => none

/-- The units of a string up to its closing quote, and what follows that. A character beyond the
range of one unit stands for itself. -/
def stringTail? : List Char → Option (List Nat × List Char)
  | [] => none
  | '\x22' :: cs => some ([], cs)
  | '\\' :: 'u' :: a :: b :: c :: d :: cs =>
    (unit? a b c d).bind fun u => (stringTail? cs).map fun tail => (u :: tail.1, tail.2)
  | '\\' :: c :: cs =>
    (escape? c).bind fun u => (stringTail? cs).map fun tail => (u :: tail.1, tail.2)
  | c :: cs =>
    if c.toNat < 0x20 then none
    else (stringTail? cs).map fun tail => (c.toNat :: tail.1, tail.2)

/-- The characters that units stand for. -/
def joinUnits : List Nat → List Char
  | high :: low :: us =>
    if 0xd800 ≤ high && high ≤ 0xdbff && 0xdc00 ≤ low && low ≤ 0xdfff then
      Char.ofNat (0x10000 + (high - 0xd800) * 0x400 + (low - 0xdc00)) :: joinUnits us
    else ofUnit high :: joinUnits (low :: us)
  | [u] => [ofUnit u]
  | [] => []
where
  ofUnit (u : Nat) : Char :=
    if 0xd800 ≤ u && u ≤ 0xdfff then '\ufffd' else Char.ofNat u

theorem stringTail?_length_lt {cs rest : List Char} {us : List Nat}
    (h : stringTail? cs = some (us, rest)) : rest.length < cs.length := by
  fun_induction stringTail? cs generalizing us rest with
  | case1 => simp at h
  | case2 cs =>
    simp only [Option.some.injEq, Prod.mk.injEq] at h
    simp [h.2]
  | case3 a b c d cs ih =>
    obtain ⟨u, -, h⟩ := Option.bind_eq_some_iff.1 h
    obtain ⟨tail, htail, hpair⟩ := Option.map_eq_some_iff.1 h
    simp only [Prod.mk.injEq] at hpair
    have := @ih tail.2 tail.1 htail
    simp only [List.length_cons, ← hpair.2]
    omega
  | case4 c cs hne ih =>
    obtain ⟨u, -, h⟩ := Option.bind_eq_some_iff.1 h
    obtain ⟨tail, htail, hpair⟩ := Option.map_eq_some_iff.1 h
    simp only [Prod.mk.injEq] at hpair
    have := @ih tail.2 tail.1 htail
    simp only [List.length_cons, ← hpair.2]
    omega
  | case5 => simp at h
  | case6 c cs hne₁ hne₂ hne₃ hctl ih =>
    obtain ⟨tail, htail, hpair⟩ := Option.map_eq_some_iff.1 h
    simp only [Prod.mk.injEq] at hpair
    have := @ih tail.2 tail.1 htail
    simp only [List.length_cons, ← hpair.2]
    omega

/-- A string behind its opening quote. -/
def string? (cs : List Char) : Option (Reading String cs) :=
  match h : stringTail? cs with
  | none => none
  | some (us, rest) => some ⟨String.ofList (joinUnits us), rest, stringTail?_length_lt h⟩

/-! ## Numbers and constants -/

def digitsValue (cs : List Char) : Nat :=
  cs.foldl (fun n c => 10 * n + (c.toNat - 48)) 0

/-- The digits before the point; a zero stands alone. -/
def wholeDigits? : List Char → Option (List Char × List Char)
  | '0' :: cs => some (['0'], cs)
  | c :: cs =>
    if c.isDigit then some (c :: cs.takeWhile Char.isDigit, cs.dropWhile Char.isDigit) else none
  | [] => none

/-- The digits behind a point, if there is one with digits behind it. -/
def fractionDigits (cs : List Char) : List Char × List Char :=
  match cs with
  | '.' :: rest =>
    match rest.takeWhile Char.isDigit with
    | [] => ([], cs)
    | ds => (ds, rest.dropWhile Char.isDigit)
  | _ => ([], cs)

def exponentSign : List Char → Bool × List Char
  | '-' :: cs => (true, cs)
  | '+' :: cs => (false, cs)
  | cs => (false, cs)

/-- The exponent, if there is one. -/
def exponent? (cs : List Char) : Option Int × List Char :=
  match cs with
  | c :: rest =>
    if c == 'e' || c == 'E' then
      let signed := exponentSign rest
      match signed.2.takeWhile Char.isDigit with
      | [] => (none, cs)
      | ds =>
        let n : Int := digitsValue ds
        (some (if signed.1 then -n else n), signed.2.dropWhile Char.isDigit)
    else (none, cs)
  | [] => (none, cs)

def numberOf (negative : Bool) (whole fraction : List Char) (exponent : Option Int) : Json :=
  if fraction.isEmpty && exponent.isNone then
    let n : Int := digitsValue whole
    int (if negative then -n else n)
  else
    let significant := (whole ++ fraction).dropWhile (· == '0')
    float (.ofDecimal negative (digitsValue significant) significant.length
      (exponent.getD 0 - fraction.length))

def unsigned? (negative : Bool) (cs : List Char) : Option (Json × List Char) :=
  (wholeDigits? cs).map fun whole =>
    let fraction := fractionDigits whole.2
    let exponent := exponent? fraction.2
    (numberOf negative whole.1 fraction.1 exponent.1, exponent.2)

def number? : List Char → Option (Json × List Char)
  | '-' :: cs => unsigned? true cs
  | cs => unsigned? false cs

def constants : List (List Char × Json) :=
  [("null".toList, null), ("true".toList, bool true), ("false".toList, bool false),
    ("NaN".toList, float .notANumber), ("Infinity".toList, float (.infinite false)),
    ("-Infinity".toList, float (.infinite true))]

def constant? (cs : List Char) : Option (Json × List Char) :=
  constants.findSome? fun w => (w.1.isPrefixOf? cs).map (w.2, ·)

def scalar? (cs : List Char) : Option (Json × List Char) :=
  (constant? cs).or (number? cs)

theorem wholeDigits?_length_lt {cs ds rest : List Char} (h : wholeDigits? cs = some (ds, rest)) :
    rest.length < cs.length := by
  unfold wholeDigits? at h
  split at h
  · simp only [Option.some.injEq, Prod.mk.injEq] at h
    simp [h.2]
  · rename_i c cs _
    split at h
    · simp only [Option.some.injEq, Prod.mk.injEq] at h
      have := (List.dropWhile_suffix (l := cs) Char.isDigit).length_le
      simp only [← h.2, List.length_cons]
      omega
    · simp at h
  · simp at h

theorem fractionDigits_length_le (cs : List Char) :
    (fractionDigits cs).2.length ≤ cs.length := by
  unfold fractionDigits
  split
  · rename_i rest
    split
    · exact Nat.le_refl _
    · exact Nat.le_succ_of_le (List.dropWhile_suffix (l := rest) Char.isDigit).length_le
  · exact Nat.le_refl _

theorem exponentSign_length_le (cs : List Char) : (exponentSign cs).2.length ≤ cs.length := by
  unfold exponentSign
  split <;> simp

theorem exponent?_length_le (cs : List Char) : (exponent? cs).2.length ≤ cs.length := by
  unfold exponent?
  split
  · rename_i c rest
    simp only
    split
    · split
      · exact Nat.le_refl _
      · have h₁ := (List.dropWhile_suffix (l := (exponentSign rest).2) Char.isDigit).length_le
        have h₂ := exponentSign_length_le rest
        simp only [List.length_cons]
        omega
    · exact Nat.le_refl _
  · exact Nat.le_refl _

theorem unsigned?_length_lt {negative : Bool} {cs rest : List Char} {v : Json}
    (h : unsigned? negative cs = some (v, rest)) : rest.length < cs.length := by
  obtain ⟨whole, hwhole, hpair⟩ := Option.map_eq_some_iff.1 h
  simp only [Prod.mk.injEq] at hpair
  have h₁ := @wholeDigits?_length_lt cs whole.1 whole.2 hwhole
  have h₂ := fractionDigits_length_le whole.2
  have h₃ := exponent?_length_le (fractionDigits whole.2).2
  rw [hpair.2] at h₃
  omega

theorem number?_length_lt {cs rest : List Char} {v : Json} (h : number? cs = some (v, rest)) :
    rest.length < cs.length := by
  unfold number? at h
  split at h
  · exact Nat.lt_succ_of_lt (unsigned?_length_lt h)
  · exact unsigned?_length_lt h

theorem constant?_length_lt {cs rest : List Char} {v : Json} (h : constant? cs = some (v, rest)) :
    rest.length < cs.length := by
  obtain ⟨w, hw, hread⟩ := List.exists_of_findSome?_eq_some h
  obtain ⟨after, hafter, hpair⟩ := Option.map_eq_some_iff.1 hread
  simp only [Prod.mk.injEq] at hpair
  have hne : ∀ w ∈ constants, 0 < w.1.length := by decide
  have hpos := hne w hw
  rw [isPrefixOf?_eq_some.1 hafter, List.length_append, hpair.2]
  omega

theorem scalar?_length_lt {cs rest : List Char} {v : Json} (h : scalar? cs = some (v, rest)) :
    rest.length < cs.length := by
  rcases Option.or_eq_some_iff.1 h with h | ⟨-, h⟩
  · exact constant?_length_lt h
  · exact number?_length_lt h

/-! ## Values -/

mutual

def value? (cs : List Char) : Option (Reading Json cs) :=
  have hspace := skipSpace_length_le cs
  match h : skipSpace cs with
  | [] => none
  | c :: rest =>
    have hlt : rest.length < cs.length := by
      rw [h, List.length_cons] at hspace
      omega
    if c == '\x22' then
      (string? rest).map fun s => (s.map str).within (Nat.le_of_lt hlt)
    else if c == '[' then
      match hclose : skipSpace rest with
      | ']' :: after =>
        some ⟨arr [], after, by
          have := skipSpace_length_le rest
          rw [hclose, List.length_cons] at this
          omega⟩
      | _ => (items? rest).map fun r => (r.map arr).within (Nat.le_of_lt hlt)
    else if c == '\x7b' then
      match hclose : skipSpace rest with
      | '\x7d' :: after =>
        some ⟨obj [], after, by
          have := skipSpace_length_le rest
          rw [hclose, List.length_cons] at this
          omega⟩
      | _ =>
        (members? rest).map fun r =>
          (r.map fun ms => obj (Table.ofList ms)).within (Nat.le_of_lt hlt)
    else
      match hscalar : scalar? (c :: rest) with
      | some (v, after) =>
        some ⟨v, after, by
          have := scalar?_length_lt hscalar
          rw [← h] at this
          omega⟩
      | none => none
termination_by (cs.length, 2)

/-- The items of an array up to its closing bracket, one at least. -/
def items? (cs : List Char) : Option (Reading (List Json) cs) :=
  (value? cs).bind fun first =>
    have hfirst := first.shorter
    have hspace := skipSpace_length_le first.rest
    match h : skipSpace first.rest with
    | ',' :: rest =>
      have hlt : rest.length < cs.length := by
        rw [h, List.length_cons] at hspace
        omega
      (items? rest).map fun more => (more.map (first.value :: ·)).within (Nat.le_of_lt hlt)
    | ']' :: rest =>
      some ⟨[first.value], rest, by
        rw [h, List.length_cons] at hspace
        omega⟩
    | _ => none
termination_by (cs.length, 3)

/-- The members of an object up to its closing brace, one at least. -/
def members? (cs : List Char) : Option (Reading (List (String × Json)) cs) :=
  have hspace := skipSpace_length_le cs
  match h : skipSpace cs with
  | '\x22' :: rest =>
    have hlt : rest.length < cs.length := by
      rw [h, List.length_cons] at hspace
      omega
    (string? rest).bind fun key =>
      have hkey := key.shorter
      have hspace := skipSpace_length_le key.rest
      match h : skipSpace key.rest with
      | ':' :: rest =>
        have hlt : rest.length < cs.length := by
          rw [h, List.length_cons] at hspace
          omega
        (value? rest).bind fun first =>
          have hfirst := first.shorter
          have hspace := skipSpace_length_le first.rest
          match h : skipSpace first.rest with
          | ',' :: rest =>
            have hlt : rest.length < cs.length := by
              rw [h, List.length_cons] at hspace
              omega
            (members? rest).map fun more =>
              (more.map ((key.value, first.value) :: ·)).within (Nat.le_of_lt hlt)
          | '\x7d' :: rest =>
            some ⟨[(key.value, first.value)], rest, by
              rw [h, List.length_cons] at hspace
              omega⟩
          | _ => none
      | _ => none
  | _ => none
termination_by (cs.length, 1)

end

/-- The value that all of a text spells, blanks around it apart. -/
def parse? (cs : List Char) : Option Json :=
  (value? cs).bind fun read =>
    if (skipSpace read.rest).isEmpty then some read.value else none

end ImportSurvey.Json
