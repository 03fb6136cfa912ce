/-!
# Sets of names

A finite set of strings, kept as its members in ascending order. Sets with the same members are
equal, so nothing computed from one depends on the order in which it was filled.
-/

namespace ImportSurvey

structure NameSet where
  names : List String
  ascending : names.Pairwise (· < ·)
deriving DecidableEq

namespace NameSet

/-- Drops each name that equals the one before it. -/
def thin : List String → List String
  | x :: y :: rest => if x = y then thin (y :: rest) else x :: thin (y :: rest)
  | xs => xs

theorem mem_thin {a : String} {xs : List String} : a ∈ thin xs ↔ a ∈ xs := by
  fun_induction thin xs with
  | case1 x rest ih => simp [ih]
  | case2 x y rest h ih => rw [List.mem_cons, ih, List.mem_cons (a := a) (b := x)]
  | case3 xs h => rfl

theorem pairwise_lt_thin {xs : List String} (h : xs.Pairwise (· ≤ ·)) :
    (thin xs).Pairwise (· < ·) := by
  fun_induction thin xs with
  | case1 x rest ih => exact ih (List.pairwise_cons.1 h).2
  | case2 x y rest hne ih =>
    obtain ⟨hx, hrest⟩ := List.pairwise_cons.1 h
    refine List.pairwise_cons.2 ⟨fun a ha => ?_, ih hrest⟩
    have hy : x ≤ y := hx y (by simp)
    have hya : y ≤ a := by
      rcases List.mem_cons.1 (mem_thin.1 ha) with rfl | hmem
      · exact String.le_refl _
      · exact (List.pairwise_cons.1 hrest).1 a hmem
    have hle : x ≤ a := String.le_trans hy hya
    refine String.not_le.1 fun hax => hne ?_
    have : x = a := String.le_antisymm hle hax
    subst this
    exact String.le_antisymm hy hya
  | case3 xs hshort =>
    match xs, hshort with
    | [], _ => exact .nil
    | [x], _ => exact List.pairwise_singleton _ _
    | x :: y :: rest, hshort => exact absurd rfl (hshort x y rest)

theorem pairwise_sort (xs : List String) : (xs.mergeSort (· ≤ ·)).Pairwise (· ≤ ·) := by
  have h := @List.pairwise_mergeSort String (fun a b => decide (a ≤ b))
    (fun a b c hab hbc => by
      simp only [decide_eq_true_eq] at *
      exact String.le_trans hab hbc)
    (fun a b => by
      simp only [Bool.or_eq_true, decide_eq_true_eq]
      exact String.le_total a b) xs
  exact h.imp fun hab => by simpa using hab

def ofList (xs : List String) : NameSet :=
  ⟨thin (xs.mergeSort (· ≤ ·)), pairwise_lt_thin (pairwise_sort xs)⟩

instance : EmptyCollection NameSet := ⟨⟨[], .nil⟩⟩

instance : Membership String NameSet := ⟨fun s a => a ∈ s.names⟩

instance (a : String) (s : NameSet) : Decidable (a ∈ s) :=
  inferInstanceAs (Decidable (a ∈ s.names))

def insert (s : NameSet) (a : String) : NameSet :=
  if a ∈ s then s else ofList (a :: s.names)

def union (s t : NameSet) : NameSet :=
  ofList (s.names ++ t.names)

instance : Union NameSet := ⟨union⟩

def size (s : NameSet) : Nat :=
  s.names.length

@[simp] theorem mem_names {a : String} {s : NameSet} : a ∈ s.names ↔ a ∈ s := Iff.rfl

@[simp] theorem not_mem_empty (a : String) : a ∉ (∅ : NameSet) :=
  List.not_mem_nil

@[simp] theorem mem_ofList {a : String} {xs : List String} : a ∈ ofList xs ↔ a ∈ xs :=
  mem_thin.trans (List.mem_mergeSort ..)

@[simp] theorem mem_insert {a b : String} {s : NameSet} : a ∈ s.insert b ↔ a = b ∨ a ∈ s := by
  unfold insert
  split
  · constructor
    · exact Or.inr
    · rintro (rfl | h) <;> assumption
  · simp

@[simp] theorem mem_union {a : String} {s t : NameSet} : a ∈ s ∪ t ↔ a ∈ s ∨ a ∈ t := by
  change a ∈ ofList (s.names ++ t.names) ↔ _
  simp

private theorem eq_of_ascending {xs ys : List String} (hx : xs.Pairwise (· < ·))
    (hy : ys.Pairwise (· < ·)) (h : ∀ a, a ∈ xs ↔ a ∈ ys) : xs = ys := by
  induction xs generalizing ys with
  | nil =>
    cases ys with
    | nil => rfl
    | cons y ys => exact absurd ((h y).2 (by simp)) (by simp)
  | cons x xs ih =>
    cases ys with
    | nil => exact absurd ((h x).1 (by simp)) (by simp)
    | cons y ys =>
      obtain ⟨hx₁, hx₂⟩ := List.pairwise_cons.1 hx
      obtain ⟨hy₁, hy₂⟩ := List.pairwise_cons.1 hy
      have hxy : x = y := by
        rcases List.mem_cons.1 ((h x).1 (by simp)) with rfl | hxmem
        · rfl
        · rcases List.mem_cons.1 ((h y).2 (by simp)) with rfl | hymem
          · rfl
          · exact absurd (hx₁ y hymem) (String.lt_asymm (hy₁ x hxmem))
      subst hxy
      congr 1
      refine ih hx₂ hy₂ fun a => ⟨fun ha => ?_, fun ha => ?_⟩
      · rcases List.mem_cons.1 ((h a).1 (by simp [ha])) with rfl | h'
        · exact absurd (hx₁ a ha) (String.lt_irrefl a)
        · exact h'
      · rcases List.mem_cons.1 ((h a).2 (by simp [ha])) with rfl | h'
        · exact absurd (hy₁ a ha) (String.lt_irrefl a)
        · exact h'

theorem ext {s t : NameSet} (h : ∀ a, a ∈ s ↔ a ∈ t) : s = t := by
  cases s with
  | mk xs hx =>
    cases t with
    | mk ys hy =>
      congr
      exact eq_of_ascending hx hy h

end NameSet

end ImportSurvey
