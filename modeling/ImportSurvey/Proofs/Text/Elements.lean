import ImportSurvey.Text.Elements
/-!
# Paths and their elements

A path and its elements determine each other, the elements being one text at least and none of them
with a slash. A path covers another exactly if its elements stand in front in the other's.
-/

namespace ImportSurvey.Text

theorem of_mem_splitOnP {α : Type} {p : α → Bool} {xs part : List α}
    (h : part ∈ xs.splitOnP p) {x : α} (hx : x ∈ part) : x ∈ xs ∧ p x = false := by
  induction xs generalizing part with
  | nil =>
    rw [List.splitOnP_nil, List.mem_singleton] at h
    subst h
    exact absurd hx List.not_mem_nil
  | cons y ys ih =>
    rw [List.splitOnP_cons_eq_if_modifyHead] at h
    by_cases hy : p y = true
    · rw [if_pos hy, List.mem_cons] at h
      rcases h with rfl | h
      · exact absurd hx List.not_mem_nil
      · exact ⟨List.mem_cons_of_mem y (ih h hx).1, (ih h hx).2⟩
    · rw [if_neg hy] at h
      cases hsplit : ys.splitOnP p with
      | nil => exact absurd hsplit (List.splitOnP_ne_nil p ys)
      | cons first rest =>
        rw [hsplit, List.modifyHead_cons, List.mem_cons] at h
        rcases h with rfl | h
        · rcases List.mem_cons.1 hx with rfl | hx
          · exact ⟨List.mem_cons_self, by simpa using hy⟩
          · have hpart := ih (hsplit ▸ List.mem_cons_self) hx
            exact ⟨List.mem_cons_of_mem y hpart.1, hpart.2⟩
        · have hpart := ih (hsplit ▸ List.mem_cons_of_mem first h) hx
          exact ⟨List.mem_cons_of_mem y hpart.1, hpart.2⟩

theorem elements_ne_nil (path : String) : elements path ≠ [] := by
  simp [elements, List.splitOn, List.splitOnP_ne_nil]

@[simp] theorem joinElements_elements (path : String) : joinElements (elements path) = path := by
  apply String.toList_injective
  simp [joinElements, elements, List.map_map, Function.comp_def, List.intercalate_splitOn]

theorem of_mem_elements {path e : String} (h : e ∈ elements path) {c : Char}
    (hc : c ∈ e.toList) : c ∈ path.toList ∧ c ≠ '/' := by
  obtain ⟨part, hpart, rfl⟩ := List.mem_map.1 h
  have hmem := of_mem_splitOnP hpart (String.toList_ofList ▸ hc)
  exact ⟨hmem.1, by simpa using hmem.2⟩

theorem elements_joinElements {es : List String} (hne : es ≠ [])
    (h : ∀ e ∈ es, '/' ∉ e.toList) : elements (joinElements es) = es := by
  have hparts : ∀ l ∈ es.map String.toList, '/' ∉ l := by
    intro l hl
    obtain ⟨e, he, rfl⟩ := List.mem_map.1 hl
    exact h e he
  have hsplit := List.splitOn_intercalate '/' hparts (by simpa using hne)
  rw [elements, joinElements, String.toList_intercalate]
  change (List.splitOn '/' (['/'].intercalate (es.map String.toList))).map String.ofList = es
  rw [hsplit, List.map_map]
  simp [Function.comp_def]

private theorem elements_inj {p q : String} (h : elements p = elements q) : p = q := by
  rw [← joinElements_elements p, h, joinElements_elements]

theorem joinElements_append {as bs : List String} (ha : as ≠ []) (hb : bs ≠ []) :
    joinElements (as ++ bs) = joinElements as ++ "/" ++ joinElements bs :=
  String.intercalate_append_of_ne_nil ha hb

/-- What a slash joins has the elements of both sides. -/
theorem elements_append (a b : String) : elements (a ++ "/" ++ b) = elements a ++ elements b := by
  have hjoin := joinElements_append (elements_ne_nil a) (elements_ne_nil b)
  rw [joinElements_elements, joinElements_elements] at hjoin
  rw [← hjoin]
  apply elements_joinElements
  · simp [elements_ne_nil a]
  · intro e he hslash
    rcases List.mem_append.1 he with he | he
    · exact (of_mem_elements he hslash).2 rfl
    · exact (of_mem_elements he hslash).2 rfl

theorem covers_iff {root path : String} :
    covers root path = true ↔ elements root <+: elements path :=
  List.isPrefixOf_iff_prefix

theorem covers_iff_eq_or {root path : String} :
    covers root path = true ↔ path = root ∨ ∃ rest, path = root ++ "/" ++ rest := by
  rw [covers_iff]
  constructor
  · rintro ⟨more, hmore⟩
    cases more with
    | nil =>
      rw [List.append_nil] at hmore
      exact Or.inl (elements_inj hmore.symm)
    | cons e es =>
      have hjoin := joinElements_append (elements_ne_nil root) (List.cons_ne_nil e es)
      rw [hmore, joinElements_elements, joinElements_elements] at hjoin
      exact Or.inr ⟨_, hjoin⟩
  · rintro (rfl | ⟨rest, rfl⟩)
    · exact List.prefix_refl _
    · rw [elements_append]
      exact List.prefix_append _ _

theorem prefix_of_covers {root path : String} (h : covers root path = true) :
    root.toList <+: path.toList := by
  rcases covers_iff_eq_or.1 h with rfl | ⟨rest, rfl⟩
  · exact List.prefix_refl _
  · exact ⟨'/' :: rest.toList, by simp⟩

end ImportSurvey.Text
