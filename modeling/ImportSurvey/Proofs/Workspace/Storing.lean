import ImportSurvey.Proofs.Workspace.Files
import ImportSurvey.Workspace.Session
/-!
# Stored files

A text that was written to a path is what the path leads to afterwards. The directories that the path
passes are made first, parent steps or not, and no change takes a directory away again, so the way by
parts and the way by names come to the same place.
-/

namespace ImportSurvey.Workspace

namespace Directory

variable {d here there top : Directory} {e : Entry} {name other : String} {l m : Location}
  {content : Content} {f : Directory → Option Directory}

/-! ## Directories by name -/

def at? (d : Directory) : Location → Option Directory
  | [] => some d
  | name :: names =>
    match d.entry? name with
    | some (.directory inside) => inside.at? names
    | _ => none

theorem at?_cons_of_entry {inside : Directory} (h : d.entry? name = some (.directory inside))
    (l : Location) : d.at? (name :: l) = inside.at? l := by
  rw [at?, h]

theorem entry_of_at? (h : (d.at? (name :: l)).isSome = true) :
    ∃ inside, d.entry? name = some (.directory inside) ∧ (inside.at? l).isSome = true := by
  rw [at?] at h
  split at h
  · rename_i inside hentry
    exact ⟨inside, hentry, h⟩
  · contradiction

theorem at?_append (d : Directory) (l m : Location) :
    d.at? (l ++ m) = (d.at? l).bind fun inside => inside.at? m := by
  induction l generalizing d with
  | nil => rfl
  | cons name l ih =>
    rw [List.cons_append, at?, at?]
    cases d.entry? name with
    | none => rfl
    | some e =>
      cases e with
      | file content => rfl
      | directory inside => exact ih inside

/-- All directories are still there. -/
def Keeps (d there : Directory) : Prop :=
  ∀ l, (d.at? l).isSome = true → (there.at? l).isSome = true

theorem Keeps.trans {last : Directory} (h : Keeps here there) (hlast : Keeps there last) :
    Keeps here last :=
  fun l hl => hlast l (h l hl)

/-! ## Changes -/

theorem put_file_of_ne {first : String} (h : first ≠ name) (old : Content) (rest : Directory)
    (e : Entry) : put name e (file first old rest) = file first old (put name e rest) := by
  cases e <;> simp [put, h]

theorem put_sub_of_ne {first : String} (h : first ≠ name) (inside rest : Directory) (e : Entry) :
    put name e (sub first inside rest) = sub first inside (put name e rest) := by
  cases e <;> simp [put, h]

theorem entry_put (d : Directory) (name : String) (e : Entry) (other : String) :
    entry? other (d.put name e) = if name = other then some e else d.entry? other := by
  induction d with
  | empty => cases e <;> rfl
  | file n content rest ih =>
    by_cases hn : n = name
    · subst hn
      by_cases hother : n = other
      all_goals cases e <;> simp [put, entry_file, entry_sub, hother]
    · rw [put_file_of_ne hn, entry_file, entry_file, ih]
      by_cases hother : n = other
      · rw [if_pos hother, if_pos hother, if_neg fun h => hn (hother.trans h.symm)]
      · rw [if_neg hother, if_neg hother]
  | sub n inside rest _ ih =>
    by_cases hn : n = name
    · subst hn
      by_cases hother : n = other
      all_goals cases e <;> simp [put, entry_file, entry_sub, hother]
    · rw [put_sub_of_ne hn, entry_sub, entry_sub, ih]
      by_cases hother : n = other
      · rw [if_pos hother, if_pos hother, if_neg fun h => hn (hother.trans h.symm)]
      · rw [if_neg hother, if_neg hother]

theorem keeps_put (h : ∀ inside, d.entry? name = some (.directory inside) →
    ∃ new, e = .directory new ∧ Keeps inside new) : Keeps d (d.put name e) := by
  intro l hl
  cases l with
  | nil => rfl
  | cons other l =>
    obtain ⟨inside, hentry, hinside⟩ := entry_of_at? hl
    by_cases hother : name = other
    · subst hother
      obtain ⟨new, rfl, hnew⟩ := h inside hentry
      rw [at?_cons_of_entry (by rw [entry_put, if_pos rfl])]
      exact hnew l hinside
    · rw [at?_cons_of_entry (by rw [entry_put, if_neg hother, hentry])]
      exact hinside

/-- A change at a location starts from the directory there, if there is one, and what it makes of it
stands there afterwards. -/
theorem at?_change (h : here.change? f l = some there) :
    ∃ d new, f d = some new ∧ there.at? l = some new ∧ ∀ old, here.at? l = some old → old = d := by
  induction l generalizing here there with
  | nil => exact ⟨here, there, h, rfl, fun old hold => (Option.some.inj hold).symm⟩
  | cons name l ih =>
    rw [change?] at h
    split at h
    · contradiction
    · rename_i inside hentry
      obtain ⟨changed, hchanged, rfl⟩ := Option.map_eq_some_iff.1 h
      obtain ⟨d, new, hd, hnew, hold⟩ := ih hchanged
      refine ⟨d, new, hd, ?_, fun old h => hold old ?_⟩
      · rw [at?_cons_of_entry (by rw [entry_put, if_pos rfl]), hnew]
      · rwa [at?_cons_of_entry hentry] at h
    · rename_i hentry
      obtain ⟨changed, hchanged, rfl⟩ := Option.map_eq_some_iff.1 h
      obtain ⟨d, new, hd, hnew, -⟩ := ih hchanged
      refine ⟨d, new, hd, ?_, fun old h => ?_⟩
      · rw [at?_cons_of_entry (by rw [entry_put, if_pos rfl]), hnew]
      · rw [at?, hentry] at h
        contradiction

theorem keeps_change (hf : ∀ d new, f d = some new → Keeps d new)
    (h : here.change? f l = some there) : Keeps here there := by
  induction l generalizing here there with
  | nil => exact hf here there h
  | cons name l ih =>
    rw [change?] at h
    split at h
    · contradiction
    · rename_i inside hentry
      obtain ⟨changed, hchanged, rfl⟩ := Option.map_eq_some_iff.1 h
      refine keeps_put fun old hold => ⟨changed, rfl, ?_⟩
      rw [hentry, Option.some.injEq, Entry.directory.injEq] at hold
      exact hold ▸ ih hchanged
    · rename_i hentry
      obtain ⟨changed, hchanged, rfl⟩ := Option.map_eq_some_iff.1 h
      refine keeps_put fun old hold => ?_
      rw [hentry] at hold
      contradiction

theorem makeDirectory?_spec (h : top.makeDirectory? l = some there) :
    Keeps top there ∧ (there.at? l).isSome = true := by
  refine ⟨keeps_change (fun d new hnew => ?_) h, ?_⟩
  · rw [← Option.some.inj hnew]
    exact fun _ hl => hl
  · obtain ⟨d, new, -, hnew, -⟩ := at?_change h
    rw [hnew]
    rfl

theorem makeWay?_spec {parts : List String} (h : top.makeWay? l parts = some there) :
    Keeps top there ∧ ∀ before, before <+: parts → before ≠ [] →
      (there.at? (before.foldl Path.step l)).isSome = true := by
  induction parts generalizing top l with
  | nil =>
    rw [← Option.some.inj h]
    exact ⟨fun _ hl => hl, fun before hbefore hne => absurd (List.prefix_nil.1 hbefore) hne⟩
  | cons part parts ih =>
    obtain ⟨next, hnext, hrest⟩ := Option.bind_eq_some_iff.1 h
    obtain ⟨hkeeps, hthere⟩ := makeDirectory?_spec hnext
    obtain ⟨hkeepsRest, hway⟩ := ih hrest
    refine ⟨hkeeps.trans hkeepsRest, fun before hbefore hne => ?_⟩
    obtain ⟨first, more, rfl⟩ := List.exists_cons_of_ne_nil hne
    obtain ⟨rfl, hmore⟩ := List.cons_prefix_cons.1 hbefore
    rw [List.foldl_cons]
    by_cases hempty : more = []
    · rw [hempty]
      exact hkeepsRest _ hthere
    · exact hway more hmore hempty

theorem store?_spec (h : top.store? (l ++ [name]) content = some there) :
    Keeps top there ∧ (top.at? (l ++ [name])).isSome = false ∧
      ∃ d, there.at? l = some d ∧ d.entry? name = some (.file content) := by
  simp only [store?, List.getLast?_concat, List.dropLast_concat] at h
  have hstored : ∀ {d new : Directory}, (match d.entry? name with
      | some (.directory _) => none
      | _ => some (d.put name (.file content))) = some new →
      (∀ inside, d.entry? name ≠ some (.directory inside)) ∧ new = d.put name (.file content) := by
    intro d new hnew
    split at hnew
    · contradiction
    · rename_i hother
      exact ⟨hother, (Option.some.inj hnew).symm⟩
  obtain ⟨d, new, hnew, hthere, hold⟩ := at?_change h
  obtain ⟨hfree, rfl⟩ := hstored hnew
  refine ⟨keeps_change (fun d new hnew => ?_) h, ?_, _, hthere, by rw [entry_put, if_pos rfl]⟩
  · obtain ⟨hfree, rfl⟩ := hstored hnew
    exact keeps_put fun inside hinside => absurd hinside (hfree inside)
  · rw [Bool.eq_false_iff]
    intro hsome
    rw [at?_append] at hsome
    cases hd : top.at? l with
    | none =>
      rw [hd] at hsome
      contradiction
    | some old =>
      rw [hd, Option.bind_some, hold old hd] at hsome
      obtain ⟨inside, hinside, -⟩ := entry_of_at? hsome
      exact hfree inside hinside

end Directory

/-! ## Ways by parts -/

theorem Trail.at?_eq {top here : Directory} {l : Location} {above : List Directory}
    (h : Trail top l above here) : top.at? l = some here := by
  induction h with
  | top => rfl
  | step _ _ hentry ih =>
    rw [Directory.at?_append, ih, Option.bind_some, Directory.at?_cons_of_entry hentry]
    rfl

theorem Trail.next {top here : Directory} {l : Location} {above : List Directory} {part : String}
    (h : Trail top l above here) (hpart : (top.at? (Path.step l part)).isSome = true) :
    ∃ others d, Trail top (Path.step l part) others d ∧
      ∀ rest, here.lookup? above (part :: rest) = d.lookup? others rest := by
  by_cases hup : part = ".."
  · rw [Path.step, if_pos hup]
    cases h with
    | top => exact ⟨[], top, .top, fun rest => by simp only [Directory.lookup?, if_pos hup]⟩
    | @step l above outside _ name h _ _ =>
      rw [List.dropLast_concat]
      exact ⟨above, outside, h, fun rest => by simp only [Directory.lookup?, if_pos hup]⟩
  · have hstep : Path.step l part = l ++ [part] := if_neg hup
    rw [hstep] at hpart ⊢
    rw [Directory.at?_append, h.at?_eq, Option.bind_some] at hpart
    obtain ⟨inside, hentry, -⟩ := Directory.entry_of_at? hpart
    exact ⟨here :: above, inside, h.step hup hentry, fun rest => by
      simp only [Directory.lookup?, if_neg hup, hentry]⟩

/-- If every location on a way is a directory, then a look-up that begins with this way goes on from
where the names lead. -/
theorem Trail.walk {top here : Directory} {l : Location} {above : List Directory}
    {parts : List String} (h : Trail top l above here)
    (hway : ∀ before, before <+: parts → before ≠ [] →
      (top.at? (before.foldl Path.step l)).isSome = true) :
    ∃ others d, Trail top (parts.foldl Path.step l) others d ∧
      ∀ rest, here.lookup? above (parts ++ rest) = d.lookup? others rest := by
  induction parts generalizing l above here with
  | nil => exact ⟨above, here, h, fun rest => rfl⟩
  | cons part parts ih =>
    obtain ⟨others, d, hfirst, hlookup⟩ :=
      h.next (hway [part] (List.cons_prefix_cons.2 ⟨rfl, List.nil_prefix⟩) (List.cons_ne_nil _ _))
    obtain ⟨last, inside, htrail, hrest⟩ := ih hfirst fun before hbefore _ =>
      hway (part :: before) (List.cons_prefix_cons.2 ⟨rfl, hbefore⟩) (List.cons_ne_nil part before)
    refine ⟨last, inside, htrail, fun rest => ?_⟩
    rw [List.cons_append, hlookup, hrest]

/-! ## Written texts -/

namespace Session

variable {s saved : Session} {p : Path} {text : String}

/-- A text that could be written to a path is what the path leads to, and nothing but the tree has
changed. -/
theorem writeText?_spec (h : s.writeText? p text = some saved) :
    ∃ tree, saved = { s with tree := tree } ∧
      tree.find? (s.absolute p) = some (.file (some (Text.encode text.toList))) := by
  obtain ⟨made, hmade, h⟩ := Option.bind_eq_some_iff.1 h
  obtain ⟨tree, htree, hsaved⟩ := Option.bind_eq_some_iff.1 h
  refine ⟨tree, (Option.some.inj hsaved).symm, ?_⟩
  obtain ⟨-, hway⟩ := Directory.makeWay?_spec hmade
  rw [Path.location, ite_self] at htree
  rw [Directory.find?]
  rcases List.eq_nil_or_concat (s.absolute p).parts with hparts | ⟨dirs, name, hparts⟩
  · rw [hparts] at htree
    contradiction
  rw [List.concat_eq_append] at hparts
  rw [hparts, List.foldl_append, List.foldl_cons, List.foldl_nil] at htree
  rw [hparts, List.dropLast_concat] at hway
  rw [hparts]
  by_cases hup : name = ".."
  · -- the location is a directory on the way or the top, and neither gives way to a file
    rw [Path.step, if_pos hup] at htree
    rcases List.eq_nil_or_concat (dirs.foldl Path.step []) with hlast | ⟨l, last, hlast⟩
    · rw [hlast] at htree
      contradiction
    rw [List.concat_eq_append] at hlast
    rw [hlast, List.dropLast_concat] at htree
    rcases List.eq_nil_or_concat l with rfl | ⟨m, dir, rfl⟩
    · contradiction
    rw [List.concat_eq_append] at hlast htree
    obtain ⟨-, hfree, -⟩ := Directory.store?_spec htree
    have hne : dirs ≠ [] := by
      rintro rfl
      simp at hlast
    have hsome := hway dirs (List.prefix_refl dirs) hne
    rw [hlast, Directory.at?_append] at hsome
    cases hdir : made.at? (m ++ [dir]) with
    | none =>
      rw [hdir] at hsome
      contradiction
    | some d =>
      rw [hdir] at hfree
      contradiction
  · rw [Path.step, if_neg hup] at htree
    obtain ⟨hkeeps, -, d, hd, hfile⟩ := Directory.store?_spec htree
    obtain ⟨above, here, htrail, hlookup⟩ := Trail.top.walk fun before hbefore hne =>
      hkeeps _ (hway before hbefore hne)
    obtain rfl : here = d := by
      rw [htrail.at?_eq] at hd
      exact Option.some.inj hd
    rw [hlookup]
    simp only [Directory.lookup?, if_neg hup, hfile]
    rfl

end Session

end ImportSurvey.Workspace
