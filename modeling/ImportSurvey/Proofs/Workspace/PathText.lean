import ImportSurvey.Proofs.Text.Elements
import ImportSurvey.Workspace.Path
/-!
# Paths and their texts

A text is parsed to the path that it was made from, if the path's parts are such as parsing keeps.
The way from one location to another ends as the second location does, unless that lies above the
first: what is put behind the location is then put behind the way.
-/

namespace ImportSurvey.Workspace

open Text

/-- A part that parsing keeps as it is. -/
structure IsPart (part : String) : Prop where
  ne_empty : part ≠ ""
  ne_dot : part ≠ "."
  slash_not_mem : '/' ∉ part.toList

/-- The name of an entry in a directory, which is a part without backslashes and not a parent step. -/
structure IsName (name : String) : Prop extends IsPart name where
  ne_up : name ≠ ".."
  backslash_not_mem : '\\' ∉ name.toList

instance (part : String) : Decidable (IsPart part) :=
  decidable_of_iff (part ≠ "" ∧ part ≠ "." ∧ '/' ∉ part.toList)
    ⟨fun h => ⟨h.1, h.2.1, h.2.2⟩, fun h => ⟨h.ne_empty, h.ne_dot, h.slash_not_mem⟩⟩

instance (name : String) : Decidable (IsName name) :=
  decidable_of_iff (IsPart name ∧ name ≠ ".." ∧ '\\' ∉ name.toList)
    ⟨fun h => ⟨h.1, h.2.1, h.2.2⟩, fun h => ⟨h.toIsPart, h.ne_up, h.backslash_not_mem⟩⟩

variable {way more root here : List String} {part : String} {p : Path} {c : Char}

/-! ## Parts and text -/

theorem IsPart.exists_cons (h : IsPart part) : ∃ c cs, part.toList = c :: cs ∧ c ≠ '/' := by
  cases hcs : part.toList with
  | nil => exact absurd (String.toList_injective hcs) h.ne_empty
  | cons c cs =>
    refine ⟨c, cs, rfl, ?_⟩
    rintro rfl
    exact h.slash_not_mem (hcs ▸ List.mem_cons_self)

theorem joinElements_cons_cons (a b : String) (es : List String) :
    joinElements (a :: b :: es) = a ++ "/" ++ joinElements (b :: es) := by
  have hjoin := joinElements_append (List.cons_ne_nil a []) (List.cons_ne_nil b es)
  rwa [List.singleton_append, show joinElements [a] = a by simp [joinElements]] at hjoin

private theorem takeWhile_slash_joinElements (h : ∀ part ∈ way, IsPart part) :
    (joinElements way).toList.takeWhile (· == '/') = [] := by
  cases way with
  | nil => rfl
  | cons a es =>
    obtain ⟨c, cs, hcs, hc⟩ := (h a List.mem_cons_self).exists_cons
    cases es with
    | nil => simp [joinElements, hcs, hc]
    | cons b es => simp [joinElements_cons_cons, hcs, hc]

private theorem filter_elements_joinElements (h : ∀ part ∈ way, IsPart part) :
    (elements (joinElements way)).filter (fun e => e != "" && e != ".") = way := by
  cases way with
  | nil => decide
  | cons a es =>
    rw [elements_joinElements (List.cons_ne_nil a es) fun e he => (h e he).slash_not_mem,
      List.filter_eq_self]
    intro e he
    simp [(h e he).ne_empty, (h e he).ne_dot]

theorem parse_joinElements (h : ∀ part ∈ way, IsPart part) :
    Path.parse (joinElements way) = ⟨.none, way⟩ := by
  rw [Path.parse, filter_elements_joinElements h, Path.anchorOf, takeWhile_slash_joinElements h]
  rfl

theorem joinElements_ne_dot (hne : way ≠ []) (h : ∀ part ∈ way, IsPart part) :
    joinElements way ≠ "." := by
  intro hdot
  have hparse := parse_joinElements h
  rw [hdot, show Path.parse "." = ⟨.none, []⟩ by decide] at hparse
  exact hne (Path.mk.inj hparse).2.symm

theorem wayText_of_ne_nil (hne : way ≠ []) : wayText way = joinElements way := by
  rw [wayText, if_neg (by simpa using hne)]

theorem parse_wayText (h : ∀ part ∈ way, IsPart part) :
    Path.parse (wayText way) = ⟨.none, way⟩ := by
  cases way with
  | nil => decide
  | cons a es =>
    rw [wayText_of_ne_nil (List.cons_ne_nil a es)]
    exact parse_joinElements h

theorem wayText_inj (hway : ∀ part ∈ way, IsPart part) (hmore : ∀ part ∈ more, IsPart part) :
    wayText way = wayText more ↔ way = more := by
  constructor
  · intro heq
    have hparse := congrArg Path.parse heq
    rw [parse_wayText hway, parse_wayText hmore] at hparse
    exact (Workspace.Path.mk.inj hparse).2
  · rintro rfl
    rfl

private theorem filter_elements_slash (s : String) :
    (elements ("/" ++ s)).filter (fun e => e != "" && e != ".") =
      (elements s).filter fun e => e != "" && e != "." := by
  have h := elements_append "" s
  rw [String.empty_append, show elements "" = [""] by decide] at h
  rw [h]
  rfl

theorem parse_text (h : ∀ part ∈ p.parts, IsPart part) : Path.parse p.text = p := by
  obtain ⟨anchor, parts⟩ := p
  have hslashes := takeWhile_slash_joinElements h
  cases anchor with
  | none =>
    have htext : (Path.mk .none parts).text = wayText parts := by simp [Path.text, wayText, Anchor.text]
    rw [htext, parse_wayText h]
  | root =>
    have htext : (Path.mk .root parts).text = "/" ++ joinElements parts := rfl
    rw [htext, Path.parse, filter_elements_slash, filter_elements_joinElements h, Path.anchorOf]
    simp [hslashes]
  | doubleRoot =>
    have htext : (Path.mk .doubleRoot parts).text = "/" ++ ("/" ++ joinElements parts) := by
      rw [← String.append_assoc]
      rfl
    rw [htext, Path.parse, filter_elements_slash, filter_elements_slash,
      filter_elements_joinElements h, Path.anchorOf]
    simp [hslashes]

theorem isPart_of_mem_parse {s : String} (h : part ∈ (Path.parse s).parts) : IsPart part := by
  obtain ⟨hmem, hkept⟩ := List.mem_filter.1 h
  obtain ⟨hempty, hdot⟩ := by simpa using hkept
  exact ⟨hempty, hdot, fun hslash => (of_mem_elements hmem hslash).2 rfl⟩

/-! ## Backslashes -/

private theorem forwardSlashes_eq_self {s : String} (h : '\\' ∉ s.toList) :
    forwardSlashes s = s := by
  apply String.toList_injective
  rw [forwardSlashes, String.toList_ofList]
  rw [List.map_congr_left (g := id), List.map_id]
  intro c hc
  have hne : c ≠ '\\' := by
    rintro rfl
    exact h hc
  simp [hne]

private theorem mem_joinElements (h : c ∈ (joinElements way).toList) :
    c = '/' ∨ ∃ part ∈ way, c ∈ part.toList := by
  induction way with
  | nil => simp [joinElements] at h
  | cons a es ih =>
    cases es with
    | nil => exact Or.inr ⟨a, List.mem_cons_self, by simpa [joinElements] using h⟩
    | cons b es =>
      rw [joinElements_cons_cons, String.toList_append, List.mem_append, String.toList_append,
        List.mem_append] at h
      rcases h with (h | h) | h
      · exact Or.inr ⟨a, List.mem_cons_self, h⟩
      · exact Or.inl (by simpa using h)
      · apply (ih h).imp_right
        rintro ⟨part, hpart, hc⟩
        exact ⟨part, List.mem_cons_of_mem a hpart, hc⟩

theorem forwardSlashes_wayText (h : ∀ part ∈ way, '\\' ∉ part.toList) :
    forwardSlashes (wayText way) = wayText way := by
  cases way with
  | nil => decide
  | cons a es =>
    apply forwardSlashes_eq_self
    intro hmem
    rw [wayText_of_ne_nil (List.cons_ne_nil a es)] at hmem
    rcases mem_joinElements hmem with hslash | ⟨part, hpart, hc⟩
    · exact absurd hslash (by decide)
    · exact h part hpart hc

/-! ## Ways -/

theorem wayTo_append (habove : here <+: root → here = root) (more : List String) :
    wayTo root (here ++ more) = wayTo root here ++ more := by
  induction root generalizing here with
  | nil => simp [wayTo]
  | cons r root ih =>
    cases here with
    | nil => exact absurd (habove List.nil_prefix) (by simp)
    | cons n here =>
      rw [List.cons_append, wayTo, wayTo]
      by_cases hr : r = n
      · rw [if_pos hr, if_pos hr]
        apply ih
        intro hpre
        exact List.tail_eq_of_cons_eq (habove (List.cons_prefix_cons.2 ⟨hr.symm, hpre⟩))
      · simp [hr]

@[simp] theorem wayTo_self : ∀ root : List String, wayTo root root = []
  | [] => rfl
  | r :: root => by rw [wayTo, if_pos rfl, wayTo_self root]

theorem wayTo_self_append (root more : List String) : wayTo root (root ++ more) = more := by
  rw [wayTo_append fun _ => rfl, wayTo_self, List.nil_append]

theorem mem_wayTo (h : part ∈ wayTo root here) : part = ".." ∨ part ∈ here := by
  induction root generalizing here with
  | nil => exact Or.inr (by simpa [wayTo] using h)
  | cons r root ih =>
    cases here with
    | nil =>
      rw [wayTo, List.append_nil] at h
      · exact Or.inl (List.eq_of_mem_replicate h)
      · simp
    | cons n here =>
      rw [wayTo] at h
      by_cases hr : r = n
      · rw [if_pos hr] at h
        exact (ih h).imp_right (List.mem_cons_of_mem n)
      · rw [if_neg hr, List.mem_append] at h
        exact h.imp List.eq_of_mem_replicate id

/-! ## Where paths lead -/

theorem foldl_step (h : ∀ part ∈ way, part ≠ "..") : way.foldl Path.step here = here ++ way := by
  induction way generalizing here with
  | nil => simp
  | cons a es ih =>
    rw [List.foldl_cons, Path.step, if_neg (h a List.mem_cons_self),
      ih fun part hpart => h part (List.mem_cons_of_mem a hpart), List.append_assoc]
    rfl

theorem location_of_isAbsolute (h : p.isAbsolute = true) (home : Location) :
    p.location home = p.location [] := by
  simp [Path.location, h]

end ImportSurvey.Workspace
