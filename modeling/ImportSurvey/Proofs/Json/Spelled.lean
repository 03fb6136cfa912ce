import ImportSurvey.Proofs.Json.Parts
import ImportSurvey.Proofs.Json.Readers
import ImportSurvey.Proofs.Table
/-!
# Spelled values

In a value that a text spells no object has a key twice, whatever the text repeats: each object is
made of its members one by one, and a key that comes again keeps its place and takes the new value.
-/

namespace ImportSurvey.Json

open Text

variable {cs rest : List Char} {c : Char} {v : Json} {vs : List Json} {ms : List (String × Json)}

private theorem length_lt_of_outcome {α : Type} {a : α} {r : Option (Reading α cs)}
    (h : outcome r = some (a, rest)) : rest.length < cs.length := by
  obtain ⟨read, -, hpair⟩ := Option.map_eq_some_iff.1 h
  simp only [Prod.mk.injEq] at hpair
  rw [← hpair.2]
  exact read.shorter

private theorem length_lt_of_skipSpace (h : skipSpace cs = c :: rest) :
    rest.length < cs.length := by
  have hle := skipSpace_length_le cs
  rw [h, List.length_cons] at hle
  omega

/-! ## What is read -/

/-- The ways in which a value is read: it has no parts, or its parts were read behind a bracket. -/
inductive ValueRead (cs rest : List Char) : Json → Prop
  | plain {v : Json} : v.hasDistinctKeys = true → ValueRead cs rest v
  | array {tail : List Char} {items : List Json} : skipSpace cs = '[' :: tail →
      outcome (items? tail) = some (items, rest) → ValueRead cs rest (arr items)
  | object {tail : List Char} {members : List (String × Json)} : skipSpace cs = '\x7b' :: tail →
      outcome (members? tail) = some (members, rest) → ValueRead cs rest (obj (Table.ofList members))

theorem hasDistinctKeys_of_scalar (h : scalar? cs = some (v, rest)) : v.hasDistinctKeys = true := by
  rcases Option.or_eq_some_iff.1 h with h | ⟨-, h⟩
  · obtain ⟨w, hw, hread⟩ := List.exists_of_findSome?_eq_some h
    obtain ⟨after, -, hpair⟩ := Option.map_eq_some_iff.1 hread
    have hall : ∀ w ∈ constants, w.2.hasDistinctKeys = true := by decide
    rw [← (Prod.mk.inj hpair).1]
    exact hall w hw
  · have hnumber : ∀ negative cs, unsigned? negative cs = some (v, rest) →
        v.hasDistinctKeys = true := by
      intro negative cs h
      obtain ⟨whole, -, hpair⟩ := Option.map_eq_some_iff.1 h
      rw [← (Prod.mk.inj hpair).1, numberOf]
      split <;> rfl
    unfold number? at h
    split at h
    · exact hnumber true _ h
    · exact hnumber false _ h

theorem valueRead (h : outcome (value? cs) = some (v, rest)) : ValueRead cs rest v := by
  rw [outcome_value] at h
  cases hspace : skipSpace cs with
  | nil =>
    rw [hspace] at h
    contradiction
  | cons c tail =>
    rw [hspace] at h
    dsimp only at h
    by_cases hquote : (c == '\x22') = true
    · rw [if_pos hquote] at h
      obtain ⟨s, -, hpair⟩ := Option.map_eq_some_iff.1 h
      rw [← (Prod.mk.inj hpair).1]
      exact .plain rfl
    rw [if_neg hquote] at h
    by_cases hopen : (c == '[') = true
    · rw [if_pos hopen] at h
      split at h
      · rw [← (Prod.mk.inj (Option.some.inj h)).1]
        exact .plain rfl
      · obtain ⟨⟨items, after⟩, hitems, hpair⟩ := Option.map_eq_some_iff.1 h
        obtain ⟨rfl, rfl⟩ := Prod.mk.inj hpair
        rw [eq_of_beq hopen] at hspace
        exact .array hspace hitems
    rw [if_neg hopen] at h
    by_cases hbrace : (c == '\x7b') = true
    · rw [if_pos hbrace] at h
      split at h
      · rw [← (Prod.mk.inj (Option.some.inj h)).1]
        exact .plain rfl
      · obtain ⟨⟨members, after⟩, hmembers, hpair⟩ := Option.map_eq_some_iff.1 h
        obtain ⟨rfl, rfl⟩ := Prod.mk.inj hpair
        rw [eq_of_beq hbrace] at hspace
        exact .object hspace hmembers
    rw [if_neg hbrace] at h
    exact .plain (hasDistinctKeys_of_scalar h)

theorem items_read (h : outcome (items? cs) = some (vs, rest)) :
    ∃ v after us, outcome (value? cs) = some (v, after) ∧ vs = v :: us ∧
      (us = [] ∨ ∃ more, skipSpace after = ',' :: more ∧ outcome (items? more) = some (us, rest)) := by
  rw [outcome_items] at h
  obtain ⟨⟨v, after⟩, hv, h⟩ := Option.bind_eq_some_iff.1 h
  split at h
  · rename_i more hcomma
    obtain ⟨⟨us, last⟩, hus, hpair⟩ := Option.map_eq_some_iff.1 h
    obtain ⟨rfl, rfl⟩ := Prod.mk.inj hpair
    exact ⟨v, after, us, hv, rfl, Or.inr ⟨more, hcomma, hus⟩⟩
  · obtain ⟨rfl, rfl⟩ := Prod.mk.inj (Option.some.inj h)
    exact ⟨v, after, [], hv, rfl, Or.inl rfl⟩
  · contradiction

theorem members_read (h : outcome (members? cs) = some (ms, rest)) :
    ∃ key tail v after us, tail.length < cs.length ∧ outcome (value? tail) = some (v, after) ∧
      ms = (key, v) :: us ∧
      (us = [] ∨ ∃ more, skipSpace after = ',' :: more ∧ outcome (members? more) = some (us, rest)) := by
  rw [outcome_members] at h
  split at h
  · rename_i text hquote
    obtain ⟨⟨key, behind⟩, hkey, h⟩ := Option.bind_eq_some_iff.1 h
    split at h
    · rename_i tail hcolon
      have hshort : tail.length < cs.length := by
        have htext := length_lt_of_skipSpace hquote
        have hbehind := length_lt_of_outcome hkey
        have htail : tail.length < behind.length := length_lt_of_skipSpace hcolon
        omega
      obtain ⟨⟨v, after⟩, hv, h⟩ := Option.bind_eq_some_iff.1 h
      rw [membersFrom] at h
      split at h
      · rename_i more hcomma
        obtain ⟨⟨us, last⟩, hus, hpair⟩ := Option.map_eq_some_iff.1 h
        obtain ⟨rfl, rfl⟩ := Prod.mk.inj hpair
        exact ⟨key, tail, v, after, us, hshort, hv, rfl, Or.inr ⟨more, hcomma, hus⟩⟩
      · obtain ⟨rfl, rfl⟩ := Prod.mk.inj (Option.some.inj h)
        exact ⟨key, tail, v, after, [], hshort, hv, rfl, Or.inl rfl⟩
      · contradiction
    · contradiction
  · contradiction

/-! ## Keys -/

mutual

-- by recursion on the length of the text, as the readers go
theorem hasDistinctKeys_of_value {cs rest : List Char} {v : Json}
    (h : outcome (value? cs) = some (v, rest)) : v.hasDistinctKeys = true := by
  cases valueRead h with
  | plain hv => exact hv
  | array hspace hitems =>
    have hshort := length_lt_of_skipSpace hspace
    exact hasDistinctKeys_arr.2 (hasDistinctKeys_of_items hitems)
  | @object tail members hspace hmembers =>
    have hshort := length_lt_of_skipSpace hspace
    exact hasDistinctKeys_obj.2 ⟨Table.nodup_keys_ofList members, fun m hm =>
      hasDistinctKeys_of_members hmembers m (Table.mem_of_mem_ofList hm)⟩
termination_by (cs.length, 0)

theorem hasDistinctKeys_of_items {cs rest : List Char} {vs : List Json}
    (h : outcome (items? cs) = some (vs, rest)) : ∀ v ∈ vs, v.hasDistinctKeys = true := by
  obtain ⟨v, after, us, hv, rfl, hus⟩ := items_read h
  refine List.forall_mem_cons.2 ⟨hasDistinctKeys_of_value hv, ?_⟩
  rcases hus with rfl | ⟨more, hcomma, hus⟩
  · exact fun v hv => absurd hv List.not_mem_nil
  · have hshort : more.length < cs.length :=
      Nat.lt_trans (length_lt_of_skipSpace hcomma) (length_lt_of_outcome hv)
    exact hasDistinctKeys_of_items hus
termination_by (cs.length, 1)

theorem hasDistinctKeys_of_members {cs rest : List Char} {ms : List (String × Json)}
    (h : outcome (members? cs) = some (ms, rest)) : ∀ m ∈ ms, m.2.hasDistinctKeys = true := by
  obtain ⟨key, tail, v, after, us, htail, hv, rfl, hus⟩ := members_read h
  refine List.forall_mem_cons.2 ⟨hasDistinctKeys_of_value hv, ?_⟩
  rcases hus with rfl | ⟨more, hcomma, hus⟩
  · exact fun m hm => absurd hm List.not_mem_nil
  · have hshort : more.length < cs.length := by
      have hmore := length_lt_of_skipSpace hcomma
      have hafter := length_lt_of_outcome hv
      omega
    exact hasDistinctKeys_of_members hus
termination_by (cs.length, 1)

end

/-- In the value that a text spells no object has a key twice. -/
theorem hasDistinctKeys_of_parse (h : parse? cs = some v) : v.hasDistinctKeys = true := by
  obtain ⟨read, hread, h⟩ := Option.bind_eq_some_iff.1 h
  split at h
  · have hvalue : outcome (value? cs) = some (read.value, read.rest) := by
      rw [hread]
      rfl
    rw [← Option.some.inj h]
    exact hasDistinctKeys_of_value hvalue
  · contradiction

end ImportSurvey.Json
