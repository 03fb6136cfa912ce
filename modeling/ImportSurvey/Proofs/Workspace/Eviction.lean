import ImportSurvey.Proofs.Workspace.Coherence
/-!
# What a full cache drops

A full cache makes room by dropping the entry that was stored first. Where a key is stored only when
looking it up finds nothing, no entry is replaced in its place, so the entries are what was stored last
since the cache was emptied, in the order of storing and as far as there is room. Searches use their
cache in this way.
-/

namespace ImportSurvey.Workspace

variable {κ α : Type} [DecidableEq κ]

inductive Use (κ α : Type)
  | look (k : κ)
  | store (k : κ) (v : α)
  | clear

def Use.note (stored : List (κ × α)) : Use κ α → List (κ × α)
  | look _ => stored
  | store k v => stored ++ [(k, v)]
  | clear => []

/-- What a run stores after it has emptied the cache for the last time, in the order of storing. -/
def lastStored (run : List (Use κ α)) : List (κ × α) :=
  run.foldl Use.note []

namespace Cache

def use (c : Cache κ α) : Use κ α → Except CacheError (Cache κ α)
  | .look _ => .ok c
  | .store k v => c.put k v
  | .clear => .ok c.clear

def afterUses (c : Cache κ α) (run : List (Use κ α)) : Except CacheError (Cache κ α) :=
  run.foldlM use c

def Misses (c : Cache κ α) : Use κ α → Prop
  | .store k _ => c.get? k = none
  | _ => True

/-- Each time that something is stored in a run, looking up its key finds nothing at that moment. -/
def LooksFirst (c : Cache κ α) : List (Use κ α) → Prop
  | [] => True
  | u :: run => c.Misses u ∧ ∀ next, c.use u = .ok next → LooksFirst next run

instance (c : Cache κ α) : (u : Use κ α) → Decidable (c.Misses u)
  | .look _ | .clear => isTrue trivial
  | .store k _ => inferInstanceAs (Decidable (c.get? k = none))

instance decidableLooksFirst (c : Cache κ α) : (run : List (Use κ α)) →
    Decidable (c.LooksFirst run)
  | [] => isTrue trivial
  | u :: run =>
    match huse : c.use u with
    | .ok next =>
      have := decidableLooksFirst next run
      decidable_of_iff (c.Misses u ∧ next.LooksFirst run) (by simp [LooksFirst, huse])
    | .error _ => decidable_of_iff (c.Misses u) (by simp [LooksFirst, huse])

/-- The entries are the last of some that were stored one after another, as many as there is room for,
and are under different keys. -/
structure HoldsLast (c : Cache κ α) (stored : List (κ × α)) : Prop where
  entries_eq : c.entries = stored.drop (stored.length - c.capacity)
  nodup : c.entries.keys.Nodup

variable {c : Cache κ α} {stored : List (κ × α)} {run : List (Use κ α)} {u : Use κ α} {k : κ}
  {capacity : Nat}

/-! ## One use -/

omit [DecidableEq κ] in
theorem HoldsLast.length_eq (h : c.HoldsLast stored) :
    c.entries.length = min c.capacity stored.length := by
  rw [h.entries_eq, List.length_drop]
  omega

theorem put_eq (hcapacity : 0 < c.capacity) (hlength : c.entries.length ≤ c.capacity) (k : κ)
    (v : α) : c.put k v = .ok { c with
      entries := Table.put (c.entries.drop (c.entries.length + 1 - c.capacity)) k v } := by
  unfold put
  by_cases hroom : c.entries.length < c.capacity
  · have hall : c.entries.length + 1 - c.capacity = 0 := by omega
    rw [if_pos hroom, hall, List.drop_zero]
  · have hone : c.entries.length + 1 - c.capacity = 1 := by omega
    rw [if_neg hroom, hone]
    cases hentries : c.entries with
    | nil =>
      rw [hentries, List.length_nil] at hroom
      omega
    | cons oldest rest => rfl

theorem HoldsLast.put (h : c.HoldsLast stored) (hcapacity : 0 < c.capacity)
    (hk : c.get? k = none) (v : α) :
    ∃ next, c.put k v = .ok next ∧ next.capacity = c.capacity ∧
      next.HoldsLast (stored ++ [(k, v)]) := by
  have hlength := h.length_eq
  have hkept : c.entries.drop (c.entries.length + 1 - c.capacity) =
      stored.drop (stored.length + 1 - c.capacity) := by
    rw [hlength, h.entries_eq, List.drop_drop]
    congr 1
    omega
  have hsuffix := List.drop_suffix (c.entries.length + 1 - c.capacity) c.entries
  have hkeys : Table.keys (c.entries.drop (c.entries.length + 1 - c.capacity)) <:+
      c.entries.keys :=
    hsuffix.map Prod.fst
  have hnew : k ∉ Table.keys (c.entries.drop (c.entries.length + 1 - c.capacity)) := by
    intro hmem
    exact Table.get?_eq_none_iff.1 hk (hkeys.mem hmem)
  refine ⟨_, put_eq hcapacity (by omega) k v, rfl, ?_, ?_⟩
  · simp only
    rw [Table.put_of_not_mem hnew, hkept, List.length_append, List.length_singleton,
      List.drop_append_of_le_length (by omega)]
  · exact Table.nodup_keys_put (h.nodup.sublist hkeys.sublist) k v

/-- A use that stores only what is missing succeeds, and the cache goes on to hold what was stored
last. -/
theorem HoldsLast.use (h : c.HoldsLast stored) (hcapacity : 0 < c.capacity) (hu : c.Misses u) :
    ∃ next, c.use u = .ok next ∧ next.capacity = c.capacity ∧ next.HoldsLast (u.note stored) := by
  cases u with
  | look k => exact ⟨c, rfl, rfl, h⟩
  | store k v => exact h.put hcapacity hu v
  | clear => exact ⟨c.clear, rfl, rfl, List.drop_nil.symm, List.nodup_nil⟩

/-! ## Runs -/

theorem HoldsLast.afterUses (h : c.HoldsLast stored) (hcapacity : 0 < c.capacity)
    (hrun : c.LooksFirst run) :
    ∃ last, c.afterUses run = .ok last ∧ last.capacity = c.capacity ∧
      last.HoldsLast (run.foldl Use.note stored) := by
  induction run generalizing c stored with
  | nil => exact ⟨c, rfl, rfl, h⟩
  | cons u run ih =>
    obtain ⟨hu, hmore⟩ := hrun
    obtain ⟨next, huse, hnext, hholds⟩ := h.use hcapacity hu
    obtain ⟨last, hlast, hsame, hends⟩ := ih hholds (hnext ▸ hcapacity) (hmore next huse)
    refine ⟨last, ?_, hsame.trans hnext, hends⟩
    rw [Cache.afterUses, List.foldlM_cons, huse]
    exact hlast

/-- Searching looks up the key of the search and stores what is found only if that was missing. -/
theorem exists_uses_search (s : Session) (path : String) (tests : Bool) :
    ∃ run, s.scope.searches.LooksFirst run ∧
      (s.search path tests).map (fun found => found.2.scope.searches) =
        s.scope.searches.afterUses run := by
  rw [Session.search]
  cases hget : s.scope.searches.get? ⟨path, tests, s.scope.exclusions⟩ with
  | some files =>
    exact ⟨[.look ⟨path, tests, s.scope.exclusions⟩], ⟨trivial, fun _ _ => trivial⟩, rfl⟩
  | none =>
    refine ⟨[.store ⟨path, tests, s.scope.exclusions⟩ (s.searchNow path tests)],
      ⟨hget, fun _ _ => trivial⟩, ?_⟩
    rw [Cache.afterUses, List.foldlM_cons, Cache.use]
    simp only
    cases s.scope.searches.put ⟨path, tests, s.scope.exclusions⟩ (s.searchNow path tests) <;> rfl

/-- A cache with room for one entry at least, in which a key is stored only when looking it up finds
nothing, holds exactly what was stored last since it was emptied, as much as there is room for and in
the order of storing. So there are never more entries than that, no key has two, looking up gives what
was stored under a key that is held and nothing for others, and all that was dropped is older than all
that is held. -/
theorem exists_last_stored (hcapacity : 0 < capacity)
    (hrun : LooksFirst ⟨capacity, []⟩ run) :
    ∃ c, afterUses ⟨capacity, []⟩ run = .ok c ∧
      c.entries = (lastStored run).drop ((lastStored run).length - capacity) ∧
      c.entries.length = min capacity (lastStored run).length ∧
      c.entries.keys.Nodup ∧
      (∀ k v, c.get? k = some v ↔ (k, v) ∈ c.entries) ∧
      (∀ k, c.get? k = none ↔ k ∉ c.entries.keys) ∧
      ∃ dropped, lastStored run = dropped ++ c.entries := by
  have hempty : HoldsLast (⟨capacity, []⟩ : Cache κ α) [] := ⟨List.drop_nil.symm, List.nodup_nil⟩
  obtain ⟨c, hafter, hsame, hholds⟩ := hempty.afterUses hcapacity hrun
  obtain rfl : c.capacity = capacity := hsame
  refine ⟨c, hafter, hholds.entries_eq, hholds.length_eq, hholds.nodup,
    fun k v => Table.get?_eq_some_iff hholds.nodup, fun k => Table.get?_eq_none_iff,
    (lastStored run).take ((lastStored run).length - c.capacity), ?_⟩
  rw [hholds.entries_eq]
  exact (List.take_append_drop _ _).symm

def storedAgain : List (Use String Nat) :=
  [.store "x" 0, .clear, .store "a" 1, .store "b" 2, .look "a", .store "c" 3, .look "a",
    .store "a" 4]

theorem exists_last_stored_again :
    0 < 2 ∧ LooksFirst ⟨2, []⟩ storedAgain ∧
      ∃ c, afterUses ⟨2, []⟩ storedAgain = .ok c ∧ c.entries = [("c", 3), ("a", 4)] ∧
        c.get? "a" = some 4 ∧ c.get? "b" = none := by
  have hrun : LooksFirst ⟨2, []⟩ storedAgain := by decide
  obtain ⟨c, hafter, hentries, -, -, hsome, hnone, -⟩ := exists_last_stored (by decide) hrun
  have heq : c.entries = [("c", 3), ("a", 4)] := hentries
  refine ⟨by decide, hrun, c, hafter, heq, (hsome _ _).2 ?_, (hnone _).2 ?_⟩
  · rw [heq]
    decide
  · rw [heq]
    decide

end Cache

end ImportSurvey.Workspace
