import ImportSurvey.Proofs.Table
import ImportSurvey.Workspace.Session
/-!
# What a session remembers

While the tree stays as it is, a session that remembers nothing false reads and finds what is there,
and goes on remembering nothing false.
-/

namespace ImportSurvey.Workspace

theorem Cache.exists_put {κ α : Type} [DecidableEq κ] (c : Cache κ α) (hcapacity : 0 < c.capacity)
    (k : κ) (v : α) : ∃ c', c.put k v = .ok c' ∧ ∀ e ∈ c'.entries, e = (k, v) ∨ e ∈ c.entries := by
  rw [put]
  by_cases hroom : c.entries.length < c.capacity
  · rw [if_pos hroom]
    exact ⟨_, rfl, fun e he => Table.mem_put he⟩
  · rw [if_neg hroom]
    cases hentries : c.entries with
    | nil =>
      rw [hentries, List.length_nil] at hroom
      omega
    | cons first rest =>
      refine ⟨_, rfl, fun e he => ?_⟩
      exact (Table.mem_put he).imp_right (List.mem_cons_of_mem first)

namespace Session

variable {s : Session}

def textNow (s : Session) (path : String) : Option String :=
  s.tree.text? (s.absolute (Path.parse path))

/-- What a session remembers is what it would read and find now. -/
structure UpToDate (s : Session) : Prop where
  texts : s.scope.texts.enabled = true →
    ∀ e ∈ s.scope.texts.texts, e.2 = s.textNow e.1
  searches : ∀ e ∈ s.scope.searches.entries, e.1.exclusions = s.scope.exclusions →
    e.2 = s.searchNow e.1.path e.1.tests

theorem upToDate_start (tree : Directory) (home : Location) (root : Option Path) (capacity : Nat) :
    (start tree home root capacity).UpToDate :=
  ⟨fun _ _ he => absurd he List.not_mem_nil, fun _ he => absurd he List.not_mem_nil⟩

theorem UpToDate.readText_fst (h : s.UpToDate) (path : String) :
    (s.readText path).1 = s.textNow path := by
  simp only [readText, TextCache.read]
  by_cases henabled : s.scope.texts.enabled = true
  · rw [if_pos henabled]
    cases hget : s.scope.texts.texts.get? path with
    | none => rfl
    | some text => exact h.texts henabled _ (Table.mem_of_get? hget)
  · rw [if_neg henabled]
    rfl

theorem UpToDate.readText_snd (h : s.UpToDate) (path : String) : (s.readText path).2.UpToDate := by
  refine ⟨?_, h.searches⟩
  simp only [readText, TextCache.read]
  by_cases henabled : s.scope.texts.enabled = true
  · rw [if_pos henabled, if_pos henabled]
    cases hget : s.scope.texts.texts.get? path with
    | some text => exact h.texts
    | none =>
      intro _ e he
      rcases Table.mem_put he with rfl | he
      · rfl
      · exact h.texts henabled e he
  · rw [if_neg henabled, if_neg henabled]
    exact h.texts

/-- A search finds what is there, and only what is remembered of searches changes. -/
theorem UpToDate.search_eq (h : s.UpToDate) (hcapacity : 0 < s.scope.searches.capacity)
    (path : String) (tests : Bool) :
    ∃ searches, s.search path tests = .ok (s.searchNow path tests,
        { s with scope := { s.scope with searches := searches } }) ∧
      ({ s with scope := { s.scope with searches := searches } } : Session).UpToDate := by
  rw [search]
  cases hget : s.scope.searches.get? ⟨path, tests, s.scope.exclusions⟩ with
  | some files =>
    obtain rfl : files = s.searchNow path tests :=
      h.searches _ (Table.mem_of_get? hget) rfl
    exact ⟨s.scope.searches, rfl, h⟩
  | none =>
    obtain ⟨searches, hput, hentries⟩ := s.scope.searches.exists_put hcapacity
      ⟨path, tests, s.scope.exclusions⟩ (s.searchNow path tests)
    refine ⟨searches, by simp only [hput]; rfl, h.texts, fun e he hexclusions => ?_⟩
    rcases hentries e he with rfl | he
    · rfl
    · exact h.searches e he hexclusions

end Session

end ImportSurvey.Workspace
