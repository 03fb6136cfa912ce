import ImportSurvey.Text.Cut
/-!
# The first occurrence of a mark

How the cut at a mark behaves when text is put behind it. A cut that is made stays where it is, and
a text without the mark only moves the cut behind it, unless the mark arises where the two meet.
-/

namespace ImportSurvey.Text

variable {a b c : Char} {mark cs ds left right : List Char}

theorem isPrefixOf?_eq_none (h : ¬ mark <+: cs) : mark.isPrefixOf? cs = none := by
  rw [Option.eq_none_iff_forall_ne_some]
  intro rest hrest
  exact h ⟨rest, (isPrefixOf?_eq_some.1 hrest).symm⟩

theorem cut?_of_eq_append {rest : List Char} (h : c :: cs = mark ++ rest) :
    cut? mark (c :: cs) = some ([], rest) := by
  rw [cut?, isPrefixOf?_eq_some.2 h]

theorem cut?_cons (h : ¬ mark <+: c :: cs) :
    cut? mark (c :: cs) = (cut? mark cs).map fun p => (c :: p.1, p.2) := by
  rw [cut?, isPrefixOf?_eq_none h]

theorem cut?_append (ds : List Char) (h : cut? mark cs = some (left, right)) :
    cut? mark (cs ++ ds) = some (left, right ++ ds) := by
  induction cs generalizing left with
  | nil =>
    obtain ⟨rfl, rfl, rfl⟩ : left = [] ∧ mark = [] ∧ right = [] := by
      simpa [and_assoc] using cut?_eq_append h
    cases ds <;> rfl
  | cons c cs ih =>
    rw [List.cons_append]
    by_cases hhead : mark <+: c :: cs
    · obtain ⟨rest, hrest⟩ := hhead
      rw [cut?_of_eq_append hrest.symm] at h
      simp only [Option.some.injEq, Prod.mk.injEq] at h
      obtain ⟨rfl, rfl⟩ := h
      have hlong : c :: (cs ++ ds) = mark ++ (rest ++ ds) := by
        rw [← List.cons_append, ← hrest, List.append_assoc]
      exact cut?_of_eq_append hlong
    · rw [cut?_cons hhead] at h
      obtain ⟨p, hp, hpair⟩ := Option.map_eq_some_iff.1 h
      simp only [Prod.mk.injEq] at hpair
      obtain ⟨rfl, rfl⟩ := hpair
      -- the mark occurs in `cs`, so it is too short to reach from `c` into `ds`
      have hshort : mark.length ≤ (c :: cs).length := by
        rw [cut?_eq_append hp]
        simp only [List.length_append, List.length_cons]
        omega
      have hlong : ¬ mark <+: c :: (cs ++ ds) := fun hprefix =>
        hhead (List.prefix_of_prefix_length_le hprefix (List.prefix_append (c :: cs) ds) hshort)
      rw [cut?_cons hlong, ih hp]
      rfl

theorem cut?_drop {skipped : List Char} (h : cut? mark cs = some (skipped ++ left, right)) :
    cut? mark (cs.drop skipped.length) = some (left, right) := by
  induction skipped generalizing cs with
  | nil => exact h
  | cons d skipped ih =>
    cases cs with
    | nil =>
      have happend := cut?_eq_append h
      simp at happend
    | cons c cs =>
      by_cases hhead : mark <+: c :: cs
      · obtain ⟨rest, hrest⟩ := hhead
        rw [cut?_of_eq_append hrest.symm] at h
        simp at h
      · rw [cut?_cons hhead] at h
        obtain ⟨p, hp, hpair⟩ := Option.map_eq_some_iff.1 h
        simp only [Prod.mk.injEq, List.cons_append, List.cons.injEq] at hpair
        obtain ⟨⟨-, hleft⟩, hright⟩ := hpair
        exact ih (by rw [hp, ← hleft, ← hright])

/-- A mark of two characters is found behind a text that does not hold it. -/
theorem cut?_pair_append (h : cut? [a, b] cs = none)
    (hmeet : cs.getLast? = some a → ds.head? ≠ some b) :
    cut? [a, b] (cs ++ ds) = (cut? [a, b] ds).map fun p => (cs ++ p.1, p.2) := by
  induction cs with
  | nil => simp
  | cons c cs ih =>
    have hhead : ¬ [a, b] <+: c :: cs := by
      intro hprefix
      obtain ⟨rest, hrest⟩ := hprefix
      rw [cut?_of_eq_append hrest.symm] at h
      contradiction
    rw [cut?_cons hhead, Option.map_eq_none_iff] at h
    have hlong : ¬ [a, b] <+: c :: (cs ++ ds) := by
      cases cs with
      | nil =>
        cases ds with
        | nil => simp
        | cons d ds =>
          simp only [List.nil_append, List.cons_prefix_cons, List.nil_prefix, and_true]
          rintro ⟨rfl, rfl⟩
          exact hmeet rfl rfl
      | cons d cs =>
        simpa [List.cons_prefix_cons] using hhead
    have htail : cs.getLast? = some a → ds.head? ≠ some b := by
      intro hlast
      cases cs with
      | nil => simp at hlast
      | cons d cs => exact hmeet (by rwa [List.getLast?_cons_cons])
    rw [List.cons_append, cut?_cons hlong, ih h htail, Option.map_map]
    rfl

theorem cut?_pair_self (hne : a ≠ b) (h : cut? [a, b] cs = none) (rest : List Char) :
    cut? [a, b] (cs ++ a :: b :: rest) = some (cs, rest) := by
  have hself : cut? [a, b] (a :: b :: rest) = some ([], rest) := cut?_of_eq_append rfl
  rw [cut?_pair_append h fun _ => by simpa using hne, hself, Option.map_some, List.append_nil]

theorem cut?_single (h : a ∉ cs) (rest : List Char) :
    cut? [a] (cs ++ a :: rest) = some (cs, rest) := by
  induction cs with
  | nil => exact cut?_of_eq_append rfl
  | cons c cs ih =>
    have hc : a ≠ c := fun heq => h (by simp [heq])
    have hcs : a ∉ cs := fun hmem => h (List.mem_cons_of_mem _ hmem)
    rw [List.cons_append, cut?_cons (by simp [List.cons_prefix_cons, hc]), ih hcs]
    rfl

theorem cut?_eq_none_of_not_mem (h : a ∉ cs) : cut? [a, b] cs = none := by
  induction cs with
  | nil => rfl
  | cons c cs ih =>
    have hc : a ≠ c := fun heq => h (by simp [heq])
    rw [cut?_cons (by simp [List.cons_prefix_cons, hc]), ih fun hmem =>
      h (List.mem_cons_of_mem _ hmem)]
    rfl

theorem before_of_not_mem (h : c ∉ cs) : before [c, d] cs = cs := by
  rw [before, cut?_eq_none_of_not_mem h]

theorem before_subset (mark cs : List Char) : before mark cs ⊆ cs := by
  intro c hc
  unfold before at hc
  split at hc
  · rename_i left right hcut
    rw [cut?_eq_append hcut]
    simp [hc]
  · exact hc

theorem cut?_eq_none_of_holds (h : holds mark cs = false) : cut? mark cs = none := by
  simpa [holds] using h

end ImportSurvey.Text
