import ImportSurvey.Json.Parser
import ImportSurvey.Json.Printer
/-!
# Written strings

A string that is written reads back. Its characters are written one by one, each as units that the
reader of strings gives back, and the units of characters that follow one another join to these
characters: no character is half of a pair, so none is joined with its neighbour.
-/

namespace ImportSurvey.Json

open Text

variable {c : Char} {cs : List Char} {u : Nat}

/-! ## Units -/

private theorem not_surrogate (c : Char) : ¬(0xd800 ≤ c.toNat ∧ c.toNat ≤ 0xdfff) := by
  have hvalid : c.toNat < 0xd800 ∨ 0xdfff < c.toNat ∧ c.toNat < 0x110000 := c.valid
  omega

private theorem toNat_lt (c : Char) : c.toNat < 0x110000 := by
  have hvalid : c.toNat < 0xd800 ∨ 0xdfff < c.toNat ∧ c.toNat < 0x110000 := c.valid
  omega

private theorem ofUnit_toNat (c : Char) : joinUnits.ofUnit c.toNat = c := by
  have hnot := not_surrogate c
  rw [joinUnits.ofUnit, if_neg (by simpa using hnot), Char.ofNat_toNat]

theorem joinUnits_units_append (c : Char) (us : List Nat) :
    joinUnits (units c ++ us) = c :: joinUnits us := by
  by_cases hsmall : c.toNat < 0x10000
  · rw [units, if_pos hsmall, List.singleton_append]
    cases us with
    | nil => rw [joinUnits, ofUnit_toNat, joinUnits]
    | cons low us =>
      have hnot := not_surrogate c
      rw [joinUnits, if_neg, ofUnit_toNat]
      simp only [Bool.and_eq_true, decide_eq_true_eq]
      omega
  · have hlarge := toNat_lt c
    have hvalue : 0x10000 + (0xd800 + (c.toNat - 0x10000) / 0x400 - 0xd800) * 0x400 +
        (0xdc00 + (c.toNat - 0x10000) % 0x400 - 0xdc00) = c.toNat := by omega
    rw [units, if_neg hsmall, List.cons_append, List.singleton_append, joinUnits, if_pos, hvalue,
      Char.ofNat_toNat]
    simp only [Bool.and_eq_true, decide_eq_true_eq]
    omega

theorem joinUnits_flatMap_units (cs : List Char) : joinUnits (cs.flatMap units) = cs := by
  induction cs with
  | nil => rfl
  | cons c cs ih => rw [List.flatMap_cons, joinUnits_units_append, ih]

private theorem lt_of_mem_units (h : u ∈ units c) : u < 0x10000 := by
  have hlarge := toNat_lt c
  rw [units] at h
  by_cases hsmall : c.toNat < 0x10000
  · rw [if_pos hsmall, List.mem_singleton] at h
    omega
  · rw [if_neg hsmall, List.mem_cons, List.mem_singleton] at h
    omega

/-! ## Escapes -/

private theorem hexValue?_hexDigit : ∀ n < 16, hexValue? (hexDigit n) = some n := by
  decide

private theorem hex_four (u : Nat) :
    hex u 4 = [hexDigit (u / 16 / 16 / 16 % 16), hexDigit (u / 16 / 16 % 16),
      hexDigit (u / 16 % 16), hexDigit (u % 16)] := rfl

theorem stringTail?_escapedUnit (h : u < 0x10000) (cs : List Char) :
    stringTail? (escapedUnit u ++ cs) = (stringTail? cs).map fun tail => (u :: tail.1, tail.2) := by
  have hvalue : ((u / 16 / 16 / 16 % 16) * 16 + u / 16 / 16 % 16) * 256 + u / 16 % 16 * 16 + u % 16 =
      u := by omega
  have hunit : unit? (hexDigit (u / 16 / 16 / 16 % 16)) (hexDigit (u / 16 / 16 % 16))
      (hexDigit (u / 16 % 16)) (hexDigit (u % 16)) = some u := by
    rw [unit?, hexValue?_hexDigit _ (Nat.mod_lt _ (by decide)),
      hexValue?_hexDigit _ (Nat.mod_lt _ (by decide)),
      hexValue?_hexDigit _ (Nat.mod_lt _ (by decide)),
      hexValue?_hexDigit _ (Nat.mod_lt _ (by decide))]
    exact congrArg some hvalue
  rw [escapedUnit, hex_four]
  simp only [List.cons_append, List.nil_append, stringTail?, hunit, Option.bind_some]

theorem stringTail?_escapedUnits {us : List Nat} (h : ∀ u ∈ us, u < 0x10000) (cs : List Char) :
    stringTail? (us.flatMap escapedUnit ++ cs) =
      (stringTail? cs).map fun tail => (us ++ tail.1, tail.2) := by
  induction us with
  | nil => simp
  | cons u us ih =>
    rw [List.flatMap_cons, List.append_assoc, stringTail?_escapedUnit (h u List.mem_cons_self),
      ih fun v hv => h v (List.mem_cons_of_mem u hv), Option.map_map]
    rfl

def shortEscapes : List Char :=
  ['\x22', '\\', '\n', '\r', '\t', '\x08', '\x0c']

theorem escapedChar_of_mem : ∀ c ∈ shortEscapes,
    ∃ letter ∈ ['\x22', '\\', 'n', 'r', 't', 'b', 'f'],
      escapedChar c = ['\\', letter] ∧ escape? letter = some c.toNat ∧ units c = [c.toNat] := by
  simp only [shortEscapes, List.forall_mem_cons]
  refine ⟨⟨'\x22', ?_⟩, ⟨'\\', ?_⟩, ⟨'n', ?_⟩, ⟨'r', ?_⟩, ⟨'t', ?_⟩, ⟨'b', ?_⟩, ⟨'f', ?_⟩,
    fun _ h => absurd h List.not_mem_nil⟩
  all_goals exact ⟨by simp, rfl, rfl, rfl⟩

theorem escapedChar_of_not_mem (h : c ∉ shortEscapes) :
    escapedChar c =
      if 0x20 ≤ c.toNat ∧ c.toNat ≤ 0x7e then [c] else (units c).flatMap escapedUnit := by
  simp only [shortEscapes, List.mem_cons, List.not_mem_nil, or_false, not_or] at h
  simp [escapedChar, h]

theorem stringTail?_escape {letter : Char} (h : letter ≠ 'u') (cs : List Char) :
    stringTail? ('\\' :: letter :: cs) =
      (escape? letter).bind fun u => (stringTail? cs).map fun tail => (u :: tail.1, tail.2) := by
  rw [stringTail?]
  simp [h]

theorem stringTail?_plain (hquote : c ≠ '\x22') (hslash : c ≠ '\\') (hlow : 0x20 ≤ c.toNat)
    (cs : List Char) :
    stringTail? (c :: cs) = (stringTail? cs).map fun tail => (c.toNat :: tail.1, tail.2) := by
  rw [stringTail?, if_neg (by omega)]
  · exact hquote
  · rintro a b d e rest rfl
    exact absurd rfl hslash
  · rintro d rest rfl
    exact absurd rfl hslash

theorem stringTail?_escapedChar (c : Char) (cs : List Char) :
    stringTail? (escapedChar c ++ cs) =
      (stringTail? cs).map fun tail => (units c ++ tail.1, tail.2) := by
  by_cases hshort : c ∈ shortEscapes
  · obtain ⟨letter, hletter, hchar, hescape, hunits⟩ := escapedChar_of_mem c hshort
    have hne : letter ≠ 'u' := by
      rintro rfl
      exact absurd hletter (by decide)
    rw [hchar, List.cons_append, List.singleton_append, stringTail?_escape hne, hescape, hunits]
    rfl
  · rw [escapedChar_of_not_mem hshort]
    by_cases hplain : 0x20 ≤ c.toNat ∧ c.toNat ≤ 0x7e
    · have hquote : c ≠ '\x22' := fun h => hshort (h ▸ by decide)
      have hslash : c ≠ '\\' := fun h => hshort (h ▸ by decide)
      rw [if_pos hplain, units, if_pos (by omega)]
      exact stringTail?_plain hquote hslash hplain.1 cs
    · rw [if_neg hplain]
      exact stringTail?_escapedUnits (fun u hu => lt_of_mem_units hu) cs

theorem stringTail?_flatMap_escapedChar (cs rest : List Char) :
    stringTail? (cs.flatMap escapedChar ++ '\x22' :: rest) = some (cs.flatMap units, rest) := by
  induction cs with
  | nil => rfl
  | cons c cs ih =>
    rw [List.flatMap_cons, List.append_assoc, stringTail?_escapedChar, ih]
    rfl

end ImportSurvey.Json
