/-!
# Tables

Finite maps that remember the order in which their keys first appeared: lists of pairs, in which
storing under a key that is present replaces the value and leaves the key where it stands.
-/

namespace ImportSurvey

abbrev Table (κ α : Type) := List (κ × α)

namespace Table

variable {κ α β : Type} [DecidableEq κ]

def keys (t : Table κ α) : List κ :=
  t.map Prod.fst

def get? (t : Table κ α) (k : κ) : Option α :=
  (t.find? fun e => e.1 = k).map Prod.snd

def has (t : Table κ α) (k : κ) : Bool :=
  t.any fun e => e.1 = k

def put (t : Table κ α) (k : κ) (v : α) : Table κ α :=
  match t with
  | [] => [(k, v)]
  | e :: rest => if e.1 = k then (k, v) :: rest else e :: put rest k v

/-- Changes the value under `k`, which counts as `start` if there is none. -/
def update (t : Table κ α) (k : κ) (start : α) (f : α → α) : Table κ α :=
  t.put k (f ((t.get? k).getD start))

def ofList (entries : List (κ × α)) : Table κ α :=
  entries.foldl (fun t e => t.put e.1 e.2) []

theorem get?_put (t : Table κ α) (k j : κ) (v : α) :
    (t.put k v).get? j = if j = k then some v else t.get? j := by
  induction t with
  | nil =>
    by_cases h : k = j
    · simp [put, get?, h]
    · simp [put, get?, h, Ne.symm h]
  | cons e rest ih =>
    simp only [put]
    by_cases he : e.1 = k
    · by_cases hj : j = k
      · simp [he, hj, get?]
      · simp [he, hj, get?, Ne.symm hj]
    · by_cases hej : e.1 = j
      · have hjk : j ≠ k := hej ▸ he
        simp [hej, hjk, get?]
      · simpa [he, hej, get?] using ih

theorem mem_keys_put (t : Table κ α) (k j : κ) (v : α) :
    j ∈ (t.put k v).keys ↔ j = k ∨ j ∈ t.keys := by
  induction t with
  | nil => simp [put, keys]
  | cons e rest ih =>
    simp only [put]
    split
    · rename_i he
      simp [keys, he]
    · simp only [keys, List.map_cons, List.mem_cons] at ih ⊢
      rw [ih]
      exact or_left_comm

theorem nodup_keys_put {t : Table κ α} (h : t.keys.Nodup) (k : κ) (v : α) :
    (t.put k v).keys.Nodup := by
  induction t with
  | nil => simp [put, keys]
  | cons e rest ih =>
    obtain ⟨hnot, hrest⟩ := List.nodup_cons.1 h
    simp only [put]
    split
    · rename_i he
      exact List.nodup_cons.2 ⟨he ▸ hnot, hrest⟩
    · rename_i he
      refine List.nodup_cons.2 ⟨fun hmem => ?_, ih hrest⟩
      rcases (mem_keys_put rest k e.1 v).1 hmem with hk | hk
      · exact he hk
      · exact hnot hk

/-- The entries in ascending order of their keys. -/
def sorted (t : Table String α) : Table String α :=
  t.mergeSort fun a b => a.1 ≤ b.1

end Table

end ImportSurvey
