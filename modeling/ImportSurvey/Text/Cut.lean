/-!
# Cutting a text at a mark

The first and the last occurrence of a mark in a text, given by what stands before and after it.
-/

namespace ImportSurvey.Text

/-- What stands before and after the first occurrence of `mark`. -/
def cut? (mark : List Char) : List Char → Option (List Char × List Char)
  | [] => if mark.isEmpty then some ([], []) else none
  | c :: cs =>
    match mark.isPrefixOf? (c :: cs) with
    | some rest => some ([], rest)
    | none => (cut? mark cs).map fun p => (c :: p.1, p.2)

/-- What stands before the first occurrence of `mark`, or all if there is none. -/
def before (mark cs : List Char) : List Char :=
  match cut? mark cs with
  | some (left, _) => left
  | none => cs

/-- What stands after the last occurrence of `mark`. -/
def afterLast? (mark : List Char) : List Char → Option (List Char)
  | [] => if mark.isEmpty then some [] else none
  | c :: cs =>
    match afterLast? mark cs with
    | some rest => some rest
    | none => mark.isPrefixOf? (c :: cs)

def holds (mark cs : List Char) : Bool :=
  (cut? mark cs).isSome

theorem isPrefixOf?_eq_some {mark cs rest : List Char} :
    mark.isPrefixOf? cs = some rest ↔ cs = mark ++ rest := by
  induction mark generalizing cs with
  | nil =>
    change some cs = some rest ↔ cs = rest
    rw [Option.some.injEq]
  | cons m mark ih =>
    cases cs with
    | nil =>
      change none = some rest ↔ [] = m :: (mark ++ rest)
      simp
    | cons c cs =>
      change (if m == c then mark.isPrefixOf? cs else none) = some rest ↔
        c :: cs = m :: (mark ++ rest)
      by_cases h : m = c
      · simp [h, ih]
      · simp [h, Ne.symm h]

theorem cut?_eq_append {mark cs left right : List Char} (h : cut? mark cs = some (left, right)) :
    cs = left ++ mark ++ right := by
  induction cs generalizing left with
  | nil =>
    simp only [cut?] at h
    split at h <;> simp_all
  | cons c cs ih =>
    simp only [cut?] at h
    split at h
    · rename_i rest hrest
      simp only [Option.some.injEq, Prod.mk.injEq] at h
      obtain ⟨rfl, rfl⟩ := h
      simpa using isPrefixOf?_eq_some.1 hrest
    · obtain ⟨p, hp, hpair⟩ := Option.map_eq_some_iff.1 h
      simp only [Prod.mk.injEq] at hpair
      obtain ⟨rfl, rfl⟩ := hpair
      simp [@ih p.1 hp]

end ImportSurvey.Text
