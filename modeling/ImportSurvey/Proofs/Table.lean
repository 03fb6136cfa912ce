import ImportSurvey.Table
import Mathlib.Data.List.Nodup
/-!
# Tables filled step by step

What a table holds under a key after many changes is what the changes under that key alone make of
it, in their order. Keys stay unique throughout, so the entries and the look-up tell the same.
-/

namespace ImportSurvey.Table

variable {κ α β : Type} [DecidableEq κ] {t : Table κ α} {k j : κ} {v : α}

omit [DecidableEq κ] in
@[simp] theorem keys_nil : keys ([] : Table κ α) = [] := rfl

omit [DecidableEq κ] in
@[simp] theorem keys_cons (e : κ × α) (t : Table κ α) : keys (e :: t) = e.1 :: keys t := rfl

theorem get?_eq_none_iff : t.get? k = none ↔ k ∉ t.keys := by
  rw [get?, Option.map_eq_none_iff, List.find?_eq_none, keys, List.mem_map]
  constructor
  · rintro h ⟨e, he, hk⟩
    exact h e he (by simpa using hk)
  · intro h e he hk
    exact h ⟨e, he, by simpa using hk⟩

theorem mem_keys_iff : k ∈ t.keys ↔ ∃ v, t.get? k = some v := by
  rw [← Option.isSome_iff_exists, Option.isSome_iff_ne_none, Ne, get?_eq_none_iff, not_not]

theorem mem_of_get? (h : t.get? k = some v) : (k, v) ∈ t := by
  obtain ⟨e, hfind, rfl⟩ := Option.map_eq_some_iff.1 h
  have hk : e.1 = k := by simpa using List.find?_some hfind
  rw [← hk]
  exact List.mem_of_find?_eq_some hfind

theorem get?_eq_some_iff (h : t.keys.Nodup) : t.get? k = some v ↔ (k, v) ∈ t := by
  refine ⟨mem_of_get?, fun hmem => ?_⟩
  induction t with
  | nil => exact absurd hmem List.not_mem_nil
  | cons e rest ih =>
    obtain ⟨hnot, hrest⟩ := List.nodup_cons.1 h
    rcases List.mem_cons.1 hmem with rfl | hmem
    · simp [get?]
    · have hne : e.1 ≠ k := by
        rintro rfl
        exact hnot (List.mem_map.2 ⟨_, hmem, rfl⟩)
      simpa [get?, hne] using ih hrest hmem

theorem perm_of_get?_eq {u : Table κ α} (ht : t.keys.Nodup) (hu : u.keys.Nodup)
    (h : ∀ k, t.get? k = u.get? k) : t.Perm u := by
  apply (List.perm_ext_iff_of_nodup (List.Nodup.of_map _ ht) (List.Nodup.of_map _ hu)).2
  rintro ⟨k, v⟩
  rw [← get?_eq_some_iff ht, ← get?_eq_some_iff hu, h]

/-! ## Changes under one key -/

theorem mem_put {e : κ × α} (h : e ∈ t.put k v) : e = (k, v) ∨ e ∈ t := by
  induction t with
  | nil => exact Or.inl (List.mem_singleton.1 h)
  | cons first rest ih =>
    rw [put] at h
    by_cases hk : first.1 = k
    · rw [if_pos hk] at h
      exact (List.mem_cons.1 h).imp_right (List.mem_cons_of_mem first)
    · rw [if_neg hk] at h
      rcases List.mem_cons.1 h with rfl | h
      · exact Or.inr List.mem_cons_self
      · exact (ih h).imp_right (List.mem_cons_of_mem first)

theorem length_put_le (t : Table κ α) (k : κ) (v : α) : (t.put k v).length ≤ t.length + 1 := by
  induction t with
  | nil => exact Nat.le_refl _
  | cons e rest ih =>
    rw [put]
    by_cases hk : e.1 = k
    · rw [if_pos hk, List.length_cons, List.length_cons]
      omega
    · rw [if_neg hk, List.length_cons, List.length_cons]
      omega

theorem keys_put_of_mem (h : k ∈ t.keys) (v : α) : (t.put k v).keys = t.keys := by
  induction t with
  | nil => exact absurd h List.not_mem_nil
  | cons e rest ih =>
    rw [put]
    by_cases hk : e.1 = k
    · rw [if_pos hk, keys_cons, keys_cons, hk]
    · rw [if_neg hk, keys_cons, keys_cons, ih ((List.mem_cons.1 h).resolve_left (Ne.symm hk))]

theorem keys_prefix_put (t : Table κ α) (k : κ) (v : α) : t.keys <+: (t.put k v).keys := by
  induction t with
  | nil => exact List.nil_prefix
  | cons e rest ih =>
    rw [put]
    by_cases hk : e.1 = k
    · have hkeys : keys (e :: rest) = keys ((k, v) :: rest) := by rw [keys_cons, keys_cons, hk]
      rw [if_pos hk]
      exact ⟨[], (List.append_nil _).trans hkeys⟩
    · rw [if_neg hk, keys_cons, keys_cons]
      exact (List.prefix_cons_inj e.1).2 ih

theorem put_put (t : Table κ α) (k : κ) (v w : α) : (t.put k v).put k w = t.put k w := by
  induction t with
  | nil => simp [put]
  | cons e rest ih =>
    by_cases hk : e.1 = k
    · simp [put, hk]
    · simp [put, hk, ih]

theorem put_of_get? (h : t.get? k = some v) : t.put k v = t := by
  induction t with
  | nil => contradiction
  | cons e rest ih =>
    by_cases hk : e.1 = k
    · obtain rfl : e.2 = v := by simpa [get?, hk] using h
      rw [put, if_pos hk, ← hk]
    · have hrest : get? rest k = some v := by simpa [get?, hk] using h
      rw [put, if_neg hk, ih hrest]

theorem get?_update (t : Table κ α) (k j : κ) (start : α) (f : α → α) :
    (t.update k start f).get? j =
      if j = k then some (f ((t.get? k).getD start)) else t.get? j := by
  rw [update, get?_put]

theorem mem_keys_update (t : Table κ α) (k j : κ) (start : α) (f : α → α) :
    j ∈ (t.update k start f).keys ↔ j = k ∨ j ∈ t.keys := by
  rw [update, mem_keys_put]

theorem nodup_keys_update (h : t.keys.Nodup) (k : κ) (start : α) (f : α → α) :
    (t.update k start f).keys.Nodup :=
  nodup_keys_put h k _

/-! ## Many changes -/

/-- The table that changes make of another, each under the key and with the start of its own. -/
def updateAll (key : β → κ) (start : β → α) (f : β → α → α) (t : Table κ α) (xs : List β) :
    Table κ α :=
  xs.foldl (fun t x => t.update (key x) (start x) (f x)) t

section Many

variable {key : β → κ} {start : β → α} {f : β → α → α}

theorem nodup_keys_updateAll (h : t.keys.Nodup) (xs : List β) :
    (updateAll key start f t xs).keys.Nodup := by
  induction xs generalizing t with
  | nil => exact h
  | cons x xs ih => exact ih (nodup_keys_update h _ _ _)

/-- Under a key stands what the changes under it make of what stood there. -/
theorem get?_updateAll (t : Table κ α) (xs : List β) (k : κ) :
    (updateAll key start f t xs).get? k =
      (xs.filter fun x => key x = k).foldl (fun v x => some (f x (v.getD (start x))))
        (t.get? k) := by
  induction xs generalizing t with
  | nil => rfl
  | cons x xs ih =>
    have hstep : updateAll key start f t (x :: xs) =
        updateAll key start f (t.update (key x) (start x) (f x)) xs := rfl
    rw [hstep, ih, get?_update]
    by_cases h : key x = k
    · rw [List.filter_cons_of_pos (by simpa using h), List.foldl_cons, if_pos h.symm, h]
    · rw [List.filter_cons_of_neg (by simpa using h), if_neg (Ne.symm h)]

theorem mem_keys_updateAll (t : Table κ α) (xs : List β) (k : κ) :
    k ∈ (updateAll key start f t xs).keys ↔ k ∈ t.keys ∨ ∃ x ∈ xs, key x = k := by
  induction xs generalizing t with
  | nil => simp [updateAll]
  | cons x xs ih =>
    have hstep : updateAll key start f t (x :: xs) =
        updateAll key start f (t.update (key x) (start x) (f x)) xs := rfl
    rw [hstep, ih, mem_keys_update, List.exists_mem_cons_iff, eq_comm (a := k), or_assoc,
      or_left_comm]

end Many

/-! ## Tables of given entries -/

theorem put_of_not_mem (h : k ∉ t.keys) : t.put k v = t ++ [(k, v)] := by
  induction t with
  | nil => rfl
  | cons e rest ih =>
    obtain ⟨hne, hrest⟩ := not_or.1 (List.mem_cons.not.1 h)
    rw [put, if_neg (Ne.symm hne), ih hrest, List.cons_append]

private theorem foldl_put_of_nodup {entries : List (κ × α)}
    (h : (t.keys ++ entries.map Prod.fst).Nodup) :
    entries.foldl (fun t e => t.put e.1 e.2) t = t ++ entries := by
  induction entries generalizing t with
  | nil => simp
  | cons e rest ih =>
    have hnot : e.1 ∉ t.keys := by
      rw [List.map_cons, List.nodup_append] at h
      exact fun hmem => h.2.2 _ hmem _ List.mem_cons_self rfl
    rw [List.foldl_cons, put_of_not_mem hnot, ih, List.append_assoc, List.singleton_append]
    simpa [keys] using h

theorem ofList_eq_self {entries : List (κ × α)} (h : (entries.map Prod.fst).Nodup) :
    ofList entries = entries :=
  foldl_put_of_nodup (t := []) h

/-- No entry of a table is new, and of a key that is given twice one entry is left. -/
theorem foldl_put_entries (h : t.keys.Nodup) (entries : List (κ × α)) :
    (keys (entries.foldl (fun t e => t.put e.1 e.2) t)).Nodup ∧
      ∀ e ∈ entries.foldl (fun t e => t.put e.1 e.2) t, e ∈ t ∨ e ∈ entries := by
  induction entries generalizing t with
  | nil => exact ⟨h, fun e he => Or.inl he⟩
  | cons first rest ih =>
    obtain ⟨hkeys, hmem⟩ := ih (nodup_keys_put h first.1 first.2)
    refine ⟨hkeys, fun e he => ?_⟩
    rcases hmem e he with he | he
    · rcases mem_put he with rfl | he
      · exact Or.inr List.mem_cons_self
      · exact Or.inl he
    · exact Or.inr (List.mem_cons_of_mem first he)

theorem nodup_keys_ofList (entries : List (κ × α)) : (ofList entries).keys.Nodup :=
  (foldl_put_entries (t := []) List.nodup_nil entries).1

theorem mem_of_mem_ofList {entries : List (κ × α)} {e : κ × α} (h : e ∈ ofList entries) :
    e ∈ entries :=
  ((foldl_put_entries (t := []) List.nodup_nil entries).2 e h).resolve_left List.not_mem_nil

/-! ## Other values -/

theorem get?_filterMap_value {t : Table κ (Option α)} (h : t.keys.Nodup) (k : κ) :
    get? (t.filterMap fun e => e.2.map (e.1, ·)) k = (t.get? k).join := by
  induction t with
  | nil => rfl
  | cons e rest ih =>
    obtain ⟨hnot, hrest⟩ := List.nodup_cons.1 h
    have hcons : get? (e :: rest) k = if e.1 = k then some e.2 else get? rest k := by
      by_cases hk : e.1 = k <;> simp [get?, hk]
    rw [hcons]
    cases hvalue : e.2 with
    | none =>
      rw [List.filterMap_cons_none (by simp [hvalue]), ih hrest]
      by_cases hk : e.1 = k
      · subst hk
        rw [if_pos rfl, get?_eq_none_iff.2 hnot]
        rfl
      · rw [if_neg hk]
    | some value =>
      rw [List.filterMap_cons_some (by rw [hvalue]; rfl)]
      by_cases hk : e.1 = k
      · simp [get?, hk]
      · rw [if_neg hk, ← ih hrest]
        simp [get?, hk]

theorem get?_map_value (t : Table κ α) (f : α → β) (k : κ) :
    get? (t.map fun e => (e.1, f e.2)) k = (t.get? k).map f := by
  simp [get?, List.find?_map, Function.comp_def]

end ImportSurvey.Table
