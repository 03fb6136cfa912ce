import ImportSurvey.Proofs.Json.Readers
import ImportSurvey.Proofs.Json.Scalars
/-!
# Texts that are no value

No value begins with most characters, so a text that has one of them in front is refused, whatever
follows.
-/

namespace ImportSurvey.Json

open Text

variable {c : Char}

/-- The characters that a value may begin with, blanks before it included. -/
def beginsValue (c : Char) : Bool :=
  isSpace c || c.isDigit || ['\x22', '[', '\x7b', '-', 'n', 't', 'f', 'N', 'I'].contains c

private theorem exists_head_of_mem_constants :
    ∀ w ∈ constants, ∃ d ds, w.1 = d :: ds ∧ beginsValue d = true := by
  simp only [constants, List.forall_mem_cons]
  exact ⟨⟨_, _, rfl, by decide⟩, ⟨_, _, rfl, by decide⟩, ⟨_, _, rfl, by decide⟩,
    ⟨_, _, rfl, by decide⟩, ⟨_, _, rfl, by decide⟩, ⟨_, _, rfl, by decide⟩,
    fun _ hw => absurd hw List.not_mem_nil⟩

theorem scalar?_eq_none (h : beginsValue c = false) (cs : List Char) : scalar? (c :: cs) = none := by
  have hconstant : constant? (c :: cs) = none := by
    refine constant?_eq_none fun w hw hstart => ?_
    obtain ⟨d, ds, hword, hd⟩ := exists_head_of_mem_constants w hw
    rw [hword, List.cons_prefix_cons] at hstart
    rw [hstart.1, h] at hd
    contradiction
  have hwhole : wholeDigits? (c :: cs) = none := by
    unfold wholeDigits?
    split
    · rename_i heq
      rw [(List.cons.inj heq).1] at h
      exact absurd h (by decide)
    · rename_i heq
      rw [← (List.cons.inj heq).1, if_neg]
      intro hdigit
      simp [beginsValue, hdigit] at h
    · rfl
  have hnumber : number? (c :: cs) = none := by
    unfold number?
    split
    · rename_i heq
      rw [(List.cons.inj heq).1] at h
      exact absurd h (by decide)
    · rw [unsigned?, hwhole, Option.map_none]
  rw [scalar?, hconstant, hnumber, Option.or_none]

theorem parse?_eq_none (h : beginsValue c = false) (cs : List Char) : parse? (c :: cs) = none := by
  have hspace : skipSpace (c :: cs) = c :: cs := by
    have hc : isSpace c = false := by
      simp only [beginsValue, Bool.or_eq_false_iff] at h
      exact h.1.1
    rw [skipSpace, List.dropWhile_cons_of_neg (by simp [hc])]
  have hne : ∀ d, beginsValue d = true → (c == d) = false := by
    intro d hd
    rw [beq_eq_false_iff_ne]
    rintro rfl
    rw [h] at hd
    contradiction
  have houtcome : outcome (value? (c :: cs)) = none := by
    rw [outcome_value, hspace]
    simp only [hne '\x22' (by decide), hne '[' (by decide), hne '\x7b' (by decide),
      Bool.false_eq_true, if_false, scalar?_eq_none h]
  rw [outcome, Option.map_eq_none_iff] at houtcome
  rw [parse?, houtcome, Option.bind_none]

end ImportSurvey.Json
