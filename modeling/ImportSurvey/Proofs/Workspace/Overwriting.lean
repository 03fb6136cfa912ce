import ImportSurvey.Proofs.Workspace.Storing
/-!
# Files that are overwritten

A path that leads to a file can always be written to: the directories on its way are there, so making
them changes nothing, and no directory stands at its end.
-/

namespace ImportSurvey.Workspace

namespace Directory

variable {d here top : Directory} {e : Entry} {name : String} {l : Location}
  {above : List Directory} {before rest : List String} {content : Content}
  {f : Directory → Option Directory}

/-! ## Changes that go through -/

theorem put_of_entry? (h : d.entry? name = some e) : d.put name e = d := by
  induction d with
  | empty => contradiction
  | file n content rest ih =>
    rw [entry_file] at h
    by_cases hn : n = name
    · rw [if_pos hn] at h
      cases Option.some.inj h
      simp [put, hn]
    · rw [if_neg hn] at h
      rw [put_file_of_ne hn, ih h]
  | sub n inside rest _ ih =>
    rw [entry_sub] at h
    by_cases hn : n = name
    · rw [if_pos hn] at h
      cases Option.some.inj h
      simp [put, hn]
    · rw [if_neg hn] at h
      rw [put_sub_of_ne hn, ih h]

theorem exists_change? (hd : here.at? l = some d) (hf : (f d).isSome = true) :
    (here.change? f l).isSome = true := by
  induction l generalizing here with
  | nil =>
    cases Option.some.inj hd
    exact hf
  | cons name l ih =>
    obtain ⟨inside, hentry, -⟩ := entry_of_at? (by rw [hd]; rfl)
    rw [at?_cons_of_entry hentry] at hd
    rw [change?, hentry]
    simp only [Option.isSome_map]
    exact ih hd

theorem makeDirectory?_of_at? (h : (top.at? l).isSome = true) : top.makeDirectory? l = some top := by
  rw [makeDirectory?]
  induction l generalizing top with
  | nil => rfl
  | cons name l ih =>
    obtain ⟨inside, hentry, hinside⟩ := entry_of_at? h
    rw [change?, hentry]
    simp only [ih hinside, Option.map_some, put_of_entry? hentry]

theorem makeWay?_of_at? {parts : List String} (h : ∀ before, before <+: parts → before ≠ [] →
    (top.at? (before.foldl Path.step l)).isSome = true) : top.makeWay? l parts = some top := by
  induction parts generalizing l with
  | nil => rfl
  | cons part parts ih =>
    have hnext : (top.at? (Path.step l part)).isSome = true :=
      h [part] (List.cons_prefix_cons.2 ⟨rfl, List.nil_prefix⟩) (List.cons_ne_nil _ _)
    rw [makeWay?, makeDirectory?_of_at? hnext]
    exact ih fun before hbefore _ =>
      h (part :: before) (List.cons_prefix_cons.2 ⟨rfl, hbefore⟩) (List.cons_ne_nil part before)

theorem exists_store? (hd : top.at? l = some d) (hfile : d.entry? name = some (.file content))
    (new : Content) : (top.store? (l ++ [name]) new).isSome = true := by
  simp only [store?, List.getLast?_concat, List.dropLast_concat]
  exact exists_change? hd (by rw [hfile]; rfl)

/-! ## The way to a file -/

theorem exists_directory_of_lookup? (h : here.lookup? above (before ++ rest) = some e)
    (hrest : rest ≠ []) : ∃ d, here.lookup? above before = some (.directory d) := by
  induction before generalizing above here with
  | nil => exact ⟨here, rfl⟩
  | cons part before ih =>
    rw [List.cons_append] at h
    by_cases hup : part = ".."
    · cases above with
      | nil =>
        simp only [lookup?, if_pos hup] at h ⊢
        exact ih h
      | cons up above =>
        simp only [lookup?, if_pos hup] at h ⊢
        exact ih h
    · simp only [lookup?, if_neg hup] at h ⊢
      cases hentry : here.entry? part with
      | none =>
        rw [hentry] at h
        cases h
      | some found =>
        rw [hentry] at h
        cases found with
        | directory inside => exact ih h
        | file content =>
          have hgoes : (before ++ rest).isEmpty = false := by simp [hrest]
          simp only [hgoes, Bool.false_eq_true, if_false] at h
          cases h

theorem reaches_of_find? {p : Path} {bytes : List UInt8}
    (h : top.find? p = some (.file (some bytes))) :
    top.reaches p = true := by
  rw [reaches, h]

end Directory

/-! ## Writing to a file -/

/-- The parts of a path that leads to a file: all but the last lead through directories, and the last
names the file in the one that they come to. -/
theorem exists_file_of_find? {top : Directory} {p : Path} {content : Content}
    (h : top.find? p = some (.file content)) :
    ∃ dirs name d, p.parts = dirs ++ [name] ∧ name ≠ ".." ∧
      (∀ before, before <+: dirs → (top.at? (before.foldl Path.step [])).isSome = true) ∧
      top.at? (dirs.foldl Path.step []) = some d ∧ d.entry? name = some (.file content) := by
  rw [Directory.find?] at h
  rcases List.eq_nil_or_concat p.parts with hparts | ⟨dirs, name, hparts⟩
  · rw [hparts] at h
    cases h
  rw [List.concat_eq_append] at hparts
  rw [hparts] at h
  -- cut anywhere before its end, the path has come to a directory from which the rest goes on
  have hway : ∀ before rest, before ++ rest = dirs ++ [name] → rest ≠ [] →
      ∃ others d, Trail top (before.foldl Path.step []) others d ∧
        ∀ more, top.lookup? [] (before ++ more) = d.lookup? others more := by
    intro before rest hsplit hrest
    rw [← hsplit] at h
    obtain ⟨d, hd⟩ := Directory.exists_directory_of_lookup? h hrest
    obtain ⟨others, htrail, hmore⟩ := Trail.top.exists_of_lookup? hd
    exact ⟨others, d, htrail, hmore⟩
  obtain ⟨others, d, htrail, hmore⟩ := hway dirs [name] rfl (List.cons_ne_nil _ _)
  rw [hmore] at h
  have hup : name ≠ ".." := by
    intro hup
    cases others <;> simp [Directory.lookup?, hup] at h
  have hentry : d.entry? name = some (.file content) := by
    simp only [Directory.lookup?, if_neg hup] at h
    cases hentry : d.entry? name with
    | none =>
      rw [hentry] at h
      cases h
    | some found =>
      rw [hentry] at h
      cases found with
      | file other =>
        rw [← h]
        rfl
      | directory inside => cases h
  refine ⟨dirs, name, d, hparts, hup, fun before hbefore => ?_, htrail.at?_eq, hentry⟩
  obtain ⟨rest, rfl⟩ := hbefore
  obtain ⟨others, d, htrail, -⟩ := hway before (rest ++ [name]) (by simp) (by simp)
  rw [htrail.at?_eq]
  rfl

theorem Session.exists_writeText? {s : Session} {p : Path} {content : Content}
    (h : s.tree.find? (s.absolute p) = some (.file content)) (text : String) :
    ∃ saved, s.writeText? p text = some saved := by
  obtain ⟨dirs, name, d, hparts, hup, hway, hd, hentry⟩ := exists_file_of_find? h
  have hmade : s.tree.makeWay? [] (s.absolute p).parts.dropLast = some s.tree := by
    rw [hparts, List.dropLast_concat]
    exact Directory.makeWay?_of_at? fun before hbefore _ => hway before hbefore
  have hlocation : (s.absolute p).location [] = dirs.foldl Path.step [] ++ [name] := by
    rw [Path.location, ite_self, hparts, List.foldl_append, List.foldl_cons, List.foldl_nil,
      Path.step, if_neg hup]
  obtain ⟨tree, htree⟩ := Option.isSome_iff_exists.1
    (Directory.exists_store? hd hentry (some (Text.encode text.toList)))
  refine ⟨{ s with tree := tree }, ?_⟩
  simp only [writeText?, hmade, hlocation, Option.bind_eq_bind, Option.bind_some, htree]
  rfl

end ImportSurvey.Workspace
