import ImportSurvey.Proofs.Json.Strings
import ImportSurvey.Proofs.Text.Cut
import Mathlib.Data.List.Basic
/-!
# Written numbers and constants

An integer that is written in digits reads back, whatever follows it that does not go on with the
number, and so do the constants. No digit begins a constant, so the two are not confused.
-/

namespace ImportSurvey.Json

open Text

variable {c : Char} {cs ds rest : List Char}

/-- Nothing that would continue a number stands in front. -/
def EndsNumber (rest : List Char) : Prop :=
  ∀ c, rest.head? = some c → c.isDigit = false ∧ c ≠ '.' ∧ c ≠ 'e' ∧ c ≠ 'E'

/-! ## Digits -/

private theorem digitsValue_toDigits (n : Nat) : digitsValue (Nat.toDigits 10 n) = n :=
  Nat.ofDigitChars_toDigits (by decide) (by decide)

theorem isDigit_of_mem_toDigits {n : Nat} (h : c ∈ Nat.toDigits 10 n) : c.isDigit = true :=
  Nat.isDigit_of_mem_toDigits (by decide) (by decide) h

private theorem head?_toDigits {n : Nat} (hn : n ≠ 0) : (Nat.toDigits 10 n).head? ≠ some '0' := by
  induction n using Nat.strongRecOn with
  | ind n ih =>
    by_cases hsmall : n < 10
    · rw [Nat.toDigits_of_lt_base hsmall, List.head?_cons, Ne, Option.some.injEq,
        Nat.digitChar_eq_zero]
      exact hn
    · have hrest := ih (n / 10) (by omega) (by omega)
      have hsome : (Nat.toDigits 10 (n / 10)).head?.isSome = true :=
        List.isSome_head?.2 Nat.toDigits_ne_nil
      rwa [Nat.toDigits_eq_if (by decide), if_neg hsmall, List.head?_append, Option.or_of_isSome hsome]

theorem EndsNumber.takeWhile_append (h : EndsNumber rest) (hds : ∀ d ∈ ds, d.isDigit = true) :
    (ds ++ rest).takeWhile Char.isDigit = ds := by
  rw [List.takeWhile_append_of_pos hds]
  cases rest with
  | nil => simp
  | cons c rest => rw [List.takeWhile_cons_of_neg (by simp [(h c rfl).1]), List.append_nil]

theorem EndsNumber.dropWhile_append (h : EndsNumber rest) (hds : ∀ d ∈ ds, d.isDigit = true) :
    (ds ++ rest).dropWhile Char.isDigit = rest := by
  rw [List.dropWhile_append_of_pos hds]
  cases rest with
  | nil => rfl
  | cons c rest => rw [List.dropWhile_cons_of_neg (by simp [(h c rfl).1])]

/-! ## Integers -/

theorem wholeDigits?_toDigits (h : EndsNumber rest) (n : Nat) :
    wholeDigits? (Nat.toDigits 10 n ++ rest) = some (Nat.toDigits 10 n, rest) := by
  have hdigits : ∀ d ∈ Nat.toDigits 10 n, d.isDigit = true := fun d => isDigit_of_mem_toDigits
  by_cases hn : n = 0
  · subst hn
    rfl
  · have hhead := head?_toDigits hn
    cases hds : Nat.toDigits 10 n with
    | nil => exact absurd hds Nat.toDigits_ne_nil
    | cons d ds =>
      rw [hds] at hhead hdigits
      have hd : d.isDigit = true := hdigits d List.mem_cons_self
      have htail : ∀ e ∈ ds, e.isDigit = true := fun e he => hdigits e (List.mem_cons_of_mem d he)
      rw [List.cons_append, wholeDigits?, if_pos hd, h.takeWhile_append htail, h.dropWhile_append htail]
      simpa using hhead

theorem EndsNumber.fractionDigits_eq (h : EndsNumber rest) : fractionDigits rest = ([], rest) := by
  unfold fractionDigits
  split
  · exact absurd rfl (h '.' rfl).2.1
  · rfl

theorem EndsNumber.exponent?_eq (h : EndsNumber rest) : exponent? rest = (none, rest) := by
  cases rest with
  | nil => rfl
  | cons c rest =>
    obtain ⟨-, -, hlower, hupper⟩ := h c rfl
    rw [exponent?, if_neg (by simp [hlower, hupper])]

theorem unsigned?_toDigits (h : EndsNumber rest) (negative : Bool) (n : Nat) :
    unsigned? negative (Nat.toDigits 10 n ++ rest) =
      some (int (if negative then -n else n), rest) := by
  simp only [unsigned?, wholeDigits?_toDigits h, Option.map_some, h.fractionDigits_eq, h.exponent?_eq,
    numberOf, List.isEmpty_nil, Option.isNone_none, Bool.and_self, if_true, digitsValue_toDigits]

theorem number?_of_isDigit (h : c.isDigit = true) (cs : List Char) :
    number? (c :: cs) = unsigned? false (c :: cs) := by
  rw [number?]
  rintro rest heq
  rw [List.cons.injEq] at heq
  rw [heq.1] at h
  contradiction

/-! ## Constants -/

theorem constant?_eq_none (h : ∀ w ∈ constants, ¬ w.1 <+: cs) : constant? cs = none := by
  rw [constant?, List.findSome?_eq_none_iff]
  intro w hw
  rw [isPrefixOf?_eq_none (h w hw), Option.map_none]

private theorem exists_of_mem_constants : ∀ w ∈ constants,
    ∃ d e ds, w.1 = d :: e :: ds ∧ d.isDigit = false ∧ (d = '-' → e.isDigit = false) := by
  simp only [constants, List.forall_mem_cons]
  exact ⟨⟨_, _, _, rfl, by decide⟩, ⟨_, _, _, rfl, by decide⟩, ⟨_, _, _, rfl, by decide⟩,
    ⟨_, _, _, rfl, by decide⟩, ⟨_, _, _, rfl, by decide⟩, ⟨_, _, _, rfl, by decide⟩,
    fun _ hw => absurd hw List.not_mem_nil⟩

theorem constant?_of_isDigit (h : c.isDigit = true) (cs : List Char) : constant? (c :: cs) = none := by
  refine constant?_eq_none fun w hw hstart => ?_
  obtain ⟨d, e, ds, hword, hd, -⟩ := exists_of_mem_constants w hw
  rw [hword, List.cons_prefix_cons] at hstart
  rw [hstart.1, h] at hd
  contradiction

theorem constant?_of_minus (h : c.isDigit = true) (cs : List Char) :
    constant? ('-' :: c :: cs) = none := by
  refine constant?_eq_none fun w hw hstart => ?_
  obtain ⟨d, e, ds, hword, -, he⟩ := exists_of_mem_constants w hw
  rw [hword, List.cons_prefix_cons, List.cons_prefix_cons] at hstart
  have hdigit := he hstart.1
  rw [hstart.2.1, h] at hdigit
  contradiction

theorem exists_toDigits_eq_cons (n : Nat) : ∃ d ds, Nat.toDigits 10 n = d :: ds ∧ d.isDigit = true := by
  obtain ⟨d, ds, hds⟩ := List.exists_cons_of_ne_nil (Nat.toDigits_ne_nil : Nat.toDigits 10 n ≠ [])
  exact ⟨d, ds, hds, isDigit_of_mem_toDigits (hds ▸ List.mem_cons_self)⟩

theorem scalar?_intChars (h : EndsNumber rest) (n : Int) :
    scalar? (intChars n ++ rest) = some (int n, rest) := by
  cases n with
  | ofNat n =>
    obtain ⟨d, ds, hds, hd⟩ := exists_toDigits_eq_cons n
    have hread := unsigned?_toDigits h false n
    rw [hds, List.cons_append] at hread
    rw [intChars, hds, List.cons_append, scalar?, constant?_of_isDigit hd, Option.none_or,
      number?_of_isDigit hd, hread]
    rfl
  | negSucc n =>
    obtain ⟨d, ds, hds, hd⟩ := exists_toDigits_eq_cons (n + 1)
    have hread := unsigned?_toDigits h true (n + 1)
    rw [hds, List.cons_append] at hread
    rw [intChars, hds, List.cons_append, List.cons_append, scalar?, constant?_of_minus hd,
      Option.none_or, number?, hread]
    rfl

theorem scalar?_null (rest : List Char) : scalar? ("null".toList ++ rest) = some (null, rest) := rfl

theorem scalar?_bool (b : Bool) (rest : List Char) :
    scalar? ((if b then "true" else "false").toList ++ rest) = some (bool b, rest) := by
  cases b <;> rfl

end ImportSurvey.Json
