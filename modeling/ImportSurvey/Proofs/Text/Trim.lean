import ImportSurvey.Text.Blank
import ImportSurvey.Text.Word
import Mathlib.Data.List.DropRight
/-!
# Trimmed texts

How trimming at the end behaves when text is put in front: what does not end in a blank stays, and
the blanks in front of a text go with it if the text is blank. The fields of a text are those before
and those behind any of its blanks. No character of a tag is a blank.
-/

namespace ImportSurvey.Text

variable {c : Char} {cs xs ys : List Char}

theorem all_head?_dropWhile {α : Type} (p : α → Bool) (as : List α) :
    ((as.dropWhile p).head?.all fun a => !p a) = true := by
  have hstop := List.head?_dropWhile_not p as
  cases hhead : (as.dropWhile p).head? with
  | none => rfl
  | some a =>
    rw [hhead] at hstop
    simp [hstop]

theorem trimLeft_cons (h : isBlank c = true) (cs : List Char) :
    trimLeft (c :: cs) = trimLeft cs := by
  rw [trimLeft, List.dropWhile_cons_of_pos h]
  rfl

theorem trimLeft_cons_of_not_blank (h : isBlank c = false) (cs : List Char) :
    trimLeft (c :: cs) = c :: cs := by
  rw [trimLeft, List.dropWhile_cons_of_neg (by simp [h])]

theorem trimRight_append (h : trimRight xs = xs) (ys : List Char) :
    trimRight (xs ++ ys) = xs ++ trimRight ys := by
  unfold trimRight at h ⊢
  rw [List.reverse_append, List.dropWhile_append]
  by_cases hempty : ys.reverse.dropWhile isBlank = []
  · rw [hempty, List.isEmpty_nil, if_pos rfl, h, List.reverse_nil, List.append_nil]
  · rw [if_neg (by simpa using hempty), List.reverse_append, List.reverse_reverse]

theorem trimRight_of_not_blank (h : ∀ c ∈ xs, isBlank c = false) : trimRight xs = xs := by
  have hreverse : xs.reverse.dropWhile isBlank = xs.reverse := by
    cases hlast : xs.reverse with
    | nil => rfl
    | cons c cs =>
      have hc : c ∈ xs := by
        rw [← List.mem_reverse, hlast]
        exact List.mem_cons_self
      rw [List.dropWhile_cons_of_neg (by simp [h c hc])]
  rw [trimRight, hreverse, List.reverse_reverse]

theorem trimRight_cons (h : isBlank c = true) (cs : List Char) :
    trimRight (c :: cs) = if trimRight cs = [] then [] else c :: trimRight cs := by
  unfold trimRight
  rw [List.reverse_cons, List.dropWhile_append]
  by_cases hempty : cs.reverse.dropWhile isBlank = []
  · simp [hempty, h]
  · rw [if_neg (by simpa using hempty), if_neg (by simpa using hempty), List.reverse_append]
    rfl

theorem exists_trimRight_append (cs : List Char) :
    ∃ bs, cs = trimRight cs ++ bs ∧ ∀ c ∈ bs, isBlank c = true := by
  refine ⟨(cs.reverse.takeWhile isBlank).reverse, ?_, ?_⟩
  · rw [trimRight, ← List.reverse_append, List.takeWhile_append_dropWhile, List.reverse_reverse]
  · intro c hc
    exact List.all_eq_true.1 List.all_takeWhile c (List.mem_reverse.1 hc)

theorem trimRight_trimRight (cs : List Char) : trimRight (trimRight cs) = trimRight cs := by
  unfold trimRight
  rw [List.reverse_reverse, List.dropWhile_idempotent]

theorem trimLeft_trimRight_trimLeft (cs : List Char) :
    trimLeft (trimRight (trimLeft cs)) = trimRight (trimLeft cs) := by
  obtain ⟨bs, hbs, -⟩ := exists_trimRight_append (trimLeft cs)
  cases htrim : trimRight (trimLeft cs) with
  | nil => rfl
  | cons c rest =>
    have hhead := all_head?_dropWhile isBlank cs
    change ((trimLeft cs).head?.all fun c => !isBlank c) = true at hhead
    rw [hbs, htrim] at hhead
    exact trimLeft_cons_of_not_blank (by simpa using hhead) rest

@[simp] theorem trimmed_trimmed (s : String) : trimmed (trimmed s) = trimmed s := by
  rw [trimmed, trimmed, String.toList_ofList, trim, trim, trimLeft_trimRight_trimLeft,
    trimRight_trimRight]

/-- A text that is not empty and neither begins nor ends in a blank. -/
structure IsNeat (s : String) : Prop where
  ne_empty : s ≠ ""
  first : ∀ c, s.toList.head? = some c → isBlank c = false
  last : ∀ c, s.toList.getLast? = some c → isBlank c = false

theorem isNeat_trimmed {s : String} (h : trimmed s ≠ "") : IsNeat (trimmed s) := by
  have htoList : (trimmed s).toList = trim s.toList := String.toList_ofList
  refine ⟨h, fun c hc => ?_, fun c hc => ?_⟩
  · obtain ⟨bs, hbs, -⟩ := exists_trimRight_append (trimLeft s.toList)
    have hhead : ((trimLeft s.toList).head?.all fun c => !isBlank c) = true :=
      all_head?_dropWhile isBlank s.toList
    rw [htoList, trim] at hc
    rw [hbs, List.head?_append, hc] at hhead
    simpa using hhead
  · have hhead := all_head?_dropWhile isBlank (trimLeft s.toList).reverse
    rw [htoList, trim, trimRight, List.getLast?_reverse] at hc
    rw [hc] at hhead
    simpa using hhead

theorem trimLeft_append (h : ∀ c ∈ xs, isBlank c = true) (ys : List Char) :
    trimLeft (xs ++ ys) = trimLeft ys :=
  List.dropWhile_append_of_pos h

theorem trimLeft_append_of_self (h : trimLeft xs = xs) (hne : xs ≠ []) (ys : List Char) :
    trimLeft (xs ++ ys) = xs ++ ys := by
  unfold trimLeft at h ⊢
  rw [List.dropWhile_append, h, if_neg (by simpa using hne)]

private theorem trimRight_append_blank (xs : List Char) (h : ∀ c ∈ ys, isBlank c = true) :
    trimRight (xs ++ ys) = trimRight xs := by
  unfold trimRight
  rw [List.reverse_append, List.dropWhile_append_of_pos fun c hc => h c (List.mem_reverse.1 hc)]

theorem trim_trimRight (cs : List Char) : trim (trimRight cs) = trim cs := by
  obtain ⟨bs, hcs, hbs⟩ := exists_trimRight_append cs
  have hleft : trimRight (trimLeft (trimRight cs ++ bs)) = trimRight (trimLeft (trimRight cs)) := by
    unfold trimLeft
    rw [List.dropWhile_append]
    by_cases hempty : (trimRight cs).dropWhile isBlank = []
    · have hnone : bs.dropWhile isBlank = [] := List.dropWhile_eq_nil_iff.2 hbs
      rw [hempty, hnone]
      rfl
    · rw [if_neg (by simpa using hempty), trimRight_append_blank _ hbs]
  rw [← hcs] at hleft
  exact hleft.symm

/-- Trimming takes the blanks away that stand around a text without any. -/
theorem trim_between (hxs : ∀ c ∈ xs, isBlank c = true) (hcs : ∀ c ∈ cs, isBlank c = false)
    (hys : ∀ c ∈ ys, isBlank c = true) : trim (xs ++ cs ++ ys) = cs := by
  have hleft : trimLeft (xs ++ cs ++ ys) = trimLeft (cs ++ ys) := by
    rw [List.append_assoc, trimLeft_append hxs]
  cases cs with
  | nil =>
    have hnone : trimLeft ys = [] := List.dropWhile_eq_nil_iff.2 hys
    rw [trim, hleft, List.nil_append, hnone]
    rfl
  | cons c cs =>
    rw [trim, hleft, List.cons_append, trimLeft_cons_of_not_blank (hcs c List.mem_cons_self),
      ← List.cons_append, trimRight_append_blank _ hys, trimRight_of_not_blank hcs]

theorem exists_around_trim (cs : List Char) :
    ∃ lead trail, (∀ c ∈ lead, isBlank c = true) ∧ (∀ c ∈ trail, isBlank c = true) ∧
      cs = lead ++ trim cs ++ trail := by
  obtain ⟨trail, htrail, hblank⟩ := exists_trimRight_append (trimLeft cs)
  refine ⟨cs.takeWhile isBlank, trail, fun c hc => List.all_eq_true.1 List.all_takeWhile c hc,
    hblank, ?_⟩
  rw [List.append_assoc, trim, ← htrail]
  exact List.takeWhile_append_dropWhile.symm

theorem trim_subset (cs : List Char) : trim cs ⊆ cs := by
  intro c hc
  obtain ⟨bs, hbs, -⟩ := exists_trimRight_append (trimLeft cs)
  have hleft : c ∈ trimLeft cs := hbs ▸ List.mem_append_left bs hc
  exact (List.dropWhile_suffix isBlank).subset hleft

/-! ## Fields -/

theorem fields_append_cons (h : isBlank c = true) (xs ys : List Char) :
    fields (xs ++ c :: ys) = fields xs ++ fields ys := by
  rw [fields, List.splitOnP_append_cons xs ys h, List.filter_append]
  rfl

theorem fields_nil : fields [] = [] := by
  rw [fields, List.splitOnP_nil]
  rfl

private theorem fields_of_blank (h : ∀ c ∈ cs, isBlank c = true) : fields cs = [] := by
  induction cs with
  | nil => exact fields_nil
  | cons c cs ih =>
    obtain ⟨hc, hcs⟩ := List.forall_mem_cons.1 h
    rw [← List.nil_append (c :: cs), fields_append_cons hc, fields_nil, ih hcs]
    rfl

theorem fields_append_blank (xs : List Char) (h : ∀ c ∈ ys, isBlank c = true) :
    fields (xs ++ ys) = fields xs := by
  cases ys with
  | nil => rw [List.append_nil]
  | cons c ys =>
    obtain ⟨hc, hys⟩ := List.forall_mem_cons.1 h
    rw [fields_append_cons hc, fields_of_blank hys, List.append_nil]

theorem fields_trimRight (cs : List Char) : fields (trimRight cs) = fields cs := by
  obtain ⟨bs, hcs, hbs⟩ := exists_trimRight_append cs
  have hfields := fields_append_blank (trimRight cs) hbs
  rw [← hcs] at hfields
  exact hfields.symm

theorem fields_blank_append (h : ∀ c ∈ xs, isBlank c = true) (ys : List Char) :
    fields (xs ++ ys) = fields ys := by
  induction xs with
  | nil => rfl
  | cons c xs ih =>
    obtain ⟨hc, hxs⟩ := List.forall_mem_cons.1 h
    have hcons := fields_append_cons hc [] (xs ++ ys)
    rw [fields_nil, List.nil_append, List.nil_append, ih hxs] at hcons
    exact hcons

theorem fields_of_not_blank (hne : cs ≠ []) (h : ∀ c ∈ cs, isBlank c = false) :
    fields cs = [cs] := by
  rw [fields, List.splitOnP_eq_singleton h]
  simp [hne]

def EndsInBlank (cs : List Char) : Prop :=
  ∃ init c, cs = init ++ [c] ∧ isBlank c = true

theorem EndsInBlank.ne_nil (h : EndsInBlank cs) : cs ≠ [] := by
  obtain ⟨init, c, rfl, -⟩ := h
  simp

theorem EndsInBlank.append (h : EndsInBlank ys) (xs : List Char) : EndsInBlank (xs ++ ys) := by
  obtain ⟨init, c, rfl, hc⟩ := h
  exact ⟨xs ++ init, c, (List.append_assoc ..).symm, hc⟩

theorem EndsInBlank.fields_append (h : EndsInBlank xs) (ys : List Char) :
    fields (xs ++ ys) = fields xs ++ fields ys := by
  obtain ⟨init, c, rfl, hc⟩ := h
  have hinit : fields (init ++ [c]) = fields init :=
    fields_append_blank init (by simpa using hc)
  rw [hinit, List.append_assoc, List.singleton_append, fields_append_cons hc]

/-- A text is blanks, then its first field, then nothing or a blank and the rest. -/
theorem exists_first_field (cs : List Char) :
    ∃ lead word rest, cs = lead ++ word ++ rest ∧ (∀ c ∈ lead, isBlank c = true) ∧
      (∀ c ∈ word, isBlank c = false) ∧ rest.head?.all isBlank = true ∧
      (word = [] → rest = []) := by
  refine ⟨cs.takeWhile isBlank, (trimLeft cs).takeWhile (!isBlank ·),
    (trimLeft cs).dropWhile (!isBlank ·), ?_, ?_, ?_, ?_, ?_⟩
  · rw [List.append_assoc, List.takeWhile_append_dropWhile]
    exact List.takeWhile_append_dropWhile.symm
  · exact fun c hc => List.all_eq_true.1 List.all_takeWhile c hc
  · intro c hc
    simpa using List.all_eq_true.1 List.all_takeWhile c hc
  · simpa using all_head?_dropWhile (!isBlank ·) (trimLeft cs)
  · intro hword
    have hhead : (trimLeft cs).head?.all (fun c => !isBlank c) = true :=
      all_head?_dropWhile isBlank cs
    cases htrim : trimLeft cs with
    | nil => rfl
    | cons c rest =>
      rw [htrim] at hword hhead
      have hc : isBlank c = false := by simpa using hhead
      simp [hc] at hword

theorem exists_of_fields_eq_cons {f g : List Char} {more : List (List Char)}
    (h : fields cs = f :: g :: more) :
    ∃ first rest, cs = first ++ rest ∧ EndsInBlank first ∧ fields first = [f] ∧
      fields rest = g :: more := by
  obtain ⟨lead, word, rest, rfl, hlead, hword, hrest, hempty⟩ := exists_first_field cs
  rw [List.append_assoc, fields_blank_append hlead] at h
  have hne : word ≠ [] := by
    rintro rfl
    rw [hempty rfl] at h
    exact absurd (fields_nil.symm.trans h) (by simp)
  have hfields := fields_of_not_blank hne hword
  cases rest with
  | nil =>
    rw [List.append_nil, hfields] at h
    simp at h
  | cons c rest =>
    have hc : isBlank c = true := by simpa using hrest
    rw [fields_append_cons hc, hfields] at h
    obtain ⟨rfl, hmore⟩ := List.cons.inj h
    refine ⟨lead ++ (word ++ [c]), rest, by simp, ⟨lead ++ word, c, by simp, hc⟩, ?_, hmore⟩
    rw [fields_blank_append hlead, fields_append_cons hc, hfields, fields_nil]
    rfl

private theorem exists_of_fields_eq_append_cons {f g : List Char} {fs more : List (List Char)}
    (h : fields cs = f :: (fs ++ g :: more)) :
    ∃ front tail, cs = front ++ tail ∧ EndsInBlank front ∧ fields front = f :: fs ∧
      fields tail = g :: more := by
  induction fs generalizing f cs with
  | nil => exact exists_of_fields_eq_cons h
  | cons e fs ih =>
    obtain ⟨first, rest, rfl, hblank, hfirst, hrest⟩ := exists_of_fields_eq_cons h
    obtain ⟨front, tail, rfl, hends, hfront, htail⟩ := ih hrest
    refine ⟨first ++ front, tail, by simp, hends.append first, ?_, htail⟩
    rw [hblank.fields_append, hfirst, hfront]
    rfl

/-- A text that begins with a blank, cut behind a blank in front of any of its fields. -/
theorem exists_of_fields_eq_append {g : List Char} {fs more : List (List Char)}
    (hblank : cs.head?.all isBlank = true) (h : fields cs = fs ++ g :: more) :
    ∃ front tail, cs = front ++ tail ∧ EndsInBlank front ∧ fields front = fs ∧
      fields tail = g :: more := by
  cases fs with
  | cons f fs => exact exists_of_fields_eq_append_cons h
  | nil =>
    cases cs with
    | nil => exact absurd (fields_nil.symm.trans h) (by simp)
    | cons c cs =>
      have hc : isBlank c = true := by simpa using hblank
      have hall : ∀ d ∈ [c], isBlank d = true := by simpa using hc
      refine ⟨[c], cs, rfl, ⟨[], c, rfl, hc⟩, fields_of_blank hall, ?_⟩
      rw [← fields_blank_append hall]
      exact h

/-! ## Blanks and tags -/

def blankRanges : List (Nat × Nat) :=
  [(9, 13), (0x1c, 0x20), (0x85, 0x85), (0xa0, 0xa0), (0x1680, 0x1680), (0x2000, 0x200a),
    (0x2028, 0x2029), (0x202f, 0x202f), (0x205f, 0x205f), (0x3000, 0x3000)]

private theorem exists_blankRange (h : isBlank c = true) :
    ∃ r ∈ blankRanges, r.1 ≤ c.toNat ∧ c.toNat ≤ r.2 := by
  have hranges : inRanges blankRanges c.toNat = isBlank c := by
    simp only [inRanges, blankRanges, isBlank, List.any_cons, List.any_nil, Bool.or_false]
    grind
  rw [← hranges, inRanges, List.any_eq_true] at h
  obtain ⟨r, hr, hin⟩ := h
  rw [Bool.and_eq_true, decide_eq_true_eq, decide_eq_true_eq] at hin
  exact ⟨r, hr, hin⟩

private theorem blanks_apart : ∀ r ∈ blankRanges, ∀ n ∈ List.range' r.1 (r.2 + 1 - r.1),
    isTagChar (Char.ofNat n) = false := by
  decide +kernel

theorem isBlank_eq_false_of_isTagChar (h : isTagChar c = true) : isBlank c = false := by
  rw [Bool.eq_false_iff]
  intro hblank
  obtain ⟨r, hr, hlo, hhi⟩ := exists_blankRange hblank
  have hmem : c.toNat ∈ List.range' r.1 (r.2 + 1 - r.1) := by
    rw [List.mem_range'_1]
    omega
  have hnot := blanks_apart r hr c.toNat hmem
  rw [Char.ofNat_toNat, h] at hnot
  contradiction

end ImportSurvey.Text
