import ImportSurvey.Proofs.Workspace.PathText
import ImportSurvey.Workspace.Tree
import Mathlib.Data.List.Nodup
/-!
# The files of a directory tree

All files of a tree with the directories that they stand in, as one list. In a tree whose directories
have proper names, all different, each file has a way of its own, and the way leads to the file. A
path that leads to a directory leads there by the names of its location as well.
-/

namespace ImportSurvey.Workspace

structure TreeFile where
  dirs : List String
  name : String
  content : Content

namespace TreeFile

def way (f : TreeFile) : List String :=
  f.dirs ++ [f.name]

def within (dir : String) (f : TreeFile) : TreeFile :=
  { f with dirs := dir :: f.dirs }

@[simp] theorem way_within (dir : String) (f : TreeFile) : (f.within dir).way = dir :: f.way := rfl

theorem name_mem_way (f : TreeFile) : f.name ∈ f.way := by
  simp [way]

theorem way_ne_nil (f : TreeFile) : f.way ≠ [] := by
  simp [way]

end TreeFile

namespace Directory

def names : Directory → List String
  | empty => []
  | file name _ rest => name :: rest.names
  | sub name _ rest => name :: rest.names

/-- The entries of each directory have names, and different ones. -/
def Proper : Directory → Prop
  | empty => True
  | file name _ rest => IsName name ∧ name ∉ rest.names ∧ rest.Proper
  | sub name inside rest => IsName name ∧ name ∉ rest.names ∧ inside.Proper ∧ rest.Proper

instance decidableProper : (d : Directory) → Decidable d.Proper
  | empty => inferInstanceAs (Decidable True)
  | file name _ rest =>
    have := rest.decidableProper
    inferInstanceAs (Decidable (IsName name ∧ name ∉ rest.names ∧ rest.Proper))
  | sub name inside rest =>
    have := inside.decidableProper
    have := rest.decidableProper
    inferInstanceAs (Decidable (IsName name ∧ name ∉ rest.names ∧ inside.Proper ∧ rest.Proper))

def files : Directory → List TreeFile
  | empty => []
  | file name content rest => ⟨[], name, content⟩ :: rest.files
  | sub name inside rest => inside.files.map (TreeFile.within name) ++ rest.files

variable {d inside : Directory} {f g : TreeFile} {name : String} {e : Entry}

/-! ## Entries -/

theorem entry_file (first : String) (content : Content) (rest : Directory) (name : String) :
    entry? name (file first content rest) =
      if first = name then some (.file content) else rest.entry? name := rfl

theorem entry_sub (first : String) (inside rest : Directory) (name : String) :
    entry? name (sub first inside rest) =
      if first = name then some (.directory inside) else rest.entry? name := rfl

private theorem mem_names_of_entry (h : d.entry? name = some e) : name ∈ d.names := by
  induction d with
  | empty => contradiction
  | file n content rest ih =>
    rw [entry_file] at h
    by_cases hn : n = name
    · exact List.mem_cons.2 (Or.inl hn.symm)
    · rw [if_neg hn] at h
      exact List.mem_cons_of_mem n (ih h)
  | sub n inside rest _ ih =>
    rw [entry_sub] at h
    by_cases hn : n = name
    · exact List.mem_cons.2 (Or.inl hn.symm)
    · rw [if_neg hn] at h
      exact List.mem_cons_of_mem n (ih h)

theorem Proper.of_entry (hd : d.Proper) (h : d.entry? name = some (.directory inside)) :
    IsName name ∧ inside.Proper := by
  induction d with
  | empty => contradiction
  | file n content rest ih =>
    rw [entry_file] at h
    by_cases hn : n = name
    · rw [if_pos hn] at h
      cases h
    · rw [if_neg hn] at h
      exact ih hd.2.2 h
  | sub n other rest _ ih =>
    rw [entry_sub] at h
    by_cases hn : n = name
    · rw [if_pos hn] at h
      cases Option.some.inj h
      exact ⟨hn ▸ hd.1, hd.2.2.1⟩
    · rw [if_neg hn] at h
      exact ih hd.2.2.2 h

private theorem entry_file_of_not_mem {content : Content} {rest : Directory} {first : String}
    (hfirst : first ∉ rest.names) (h : rest.entry? name = some e) :
    entry? name (file first content rest) = some e := by
  rw [entry_file, if_neg, h]
  rintro rfl
  exact hfirst (mem_names_of_entry h)

private theorem entry_sub_of_not_mem {rest : Directory} {first : String}
    (hfirst : first ∉ rest.names) (h : rest.entry? name = some e) :
    entry? name (sub first inside rest) = some e := by
  rw [entry_sub, if_neg, h]
  rintro rfl
  exact hfirst (mem_names_of_entry h)

theorem entry_of_mem_files (hd : d.Proper) (h : f ∈ d.files) :
    (f.dirs = [] ∧ d.entry? f.name = some (.file f.content)) ∨
      ∃ name inside g, f = g.within name ∧ d.entry? name = some (.directory inside) ∧
        inside.Proper ∧ g ∈ inside.files := by
  induction d with
  | empty => exact absurd h List.not_mem_nil
  | file n content rest ih =>
    rcases List.mem_cons.1 h with rfl | h
    · exact Or.inl ⟨rfl, if_pos rfl⟩
    · rcases ih hd.2.2 h with ⟨hdirs, hentry⟩ | ⟨name, inside, g, hf, hentry, hg⟩
      · exact Or.inl ⟨hdirs, entry_file_of_not_mem hd.2.1 hentry⟩
      · exact Or.inr ⟨name, inside, g, hf, entry_file_of_not_mem hd.2.1 hentry, hg⟩
  | sub n inside rest _ ih =>
    rcases List.mem_append.1 h with h | h
    · obtain ⟨g, hg, rfl⟩ := List.mem_map.1 h
      exact Or.inr ⟨n, inside, g, rfl, if_pos rfl, hd.2.2.1, hg⟩
    · rcases ih hd.2.2.2 h with ⟨hdirs, hentry⟩ | ⟨name, other, g, hf, hentry, hg⟩
      · exact Or.inl ⟨hdirs, entry_sub_of_not_mem hd.2.1 hentry⟩
      · exact Or.inr ⟨name, other, g, hf, entry_sub_of_not_mem hd.2.1 hentry, hg⟩

/-! ## Ways -/

theorem isName_of_mem_way (hd : d.Proper) (h : f ∈ d.files) (hname : name ∈ f.way) :
    IsName name := by
  induction d generalizing f with
  | empty => exact absurd h List.not_mem_nil
  | file n content rest ih =>
    rcases List.mem_cons.1 h with rfl | h
    · exact List.mem_singleton.1 hname ▸ hd.1
    · exact ih hd.2.2 h hname
  | sub n inside rest ihInside ihRest =>
    rcases List.mem_append.1 h with h | h
    · obtain ⟨g, hg, rfl⟩ := List.mem_map.1 h
      rcases List.mem_cons.1 hname with rfl | hname
      · exact hd.1
      · exact ihInside hd.2.2.1 hg hname
    · exact ihRest hd.2.2.2 h hname

theorem exists_way_eq_cons (h : f ∈ d.files) : ∃ n way, f.way = n :: way ∧ n ∈ d.names := by
  induction d with
  | empty => exact absurd h List.not_mem_nil
  | file n content rest ih =>
    rcases List.mem_cons.1 h with rfl | h
    · exact ⟨n, [], rfl, List.mem_cons_self⟩
    · obtain ⟨m, way, hway, hm⟩ := ih h
      exact ⟨m, way, hway, List.mem_cons_of_mem n hm⟩
  | sub n inside rest _ ih =>
    rcases List.mem_append.1 h with h | h
    · obtain ⟨g, -, rfl⟩ := List.mem_map.1 h
      exact ⟨n, g.way, rfl, List.mem_cons_self⟩
    · obtain ⟨m, way, hway, hm⟩ := ih h
      exact ⟨m, way, hway, List.mem_cons_of_mem n hm⟩

theorem nodup_ways (hd : d.Proper) : (d.files.map TreeFile.way).Nodup := by
  induction d with
  | empty => exact List.nodup_nil
  | file n content rest ih =>
    refine List.nodup_cons.2 ⟨?_, ih hd.2.2⟩
    intro hmem
    obtain ⟨g, hg, hway⟩ := List.mem_map.1 hmem
    obtain ⟨m, way, hcons, hm⟩ := exists_way_eq_cons hg
    have hhead : m :: way = [n] := hcons.symm.trans hway
    exact hd.2.1 (List.head_eq_of_cons_eq hhead ▸ hm)
  | sub n inside rest ihInside ihRest =>
    rw [files, List.map_append, List.map_map]
    apply List.nodup_append.2
    refine ⟨?_, ihRest hd.2.2.2, ?_⟩
    · have hmap : TreeFile.way ∘ TreeFile.within n = List.cons n ∘ TreeFile.way := rfl
      rw [hmap, ← List.map_map]
      exact (ihInside hd.2.2.1).map List.cons_injective
    · intro a ha b hb hab
      obtain ⟨f, -, hf⟩ := List.mem_map.1 ha
      obtain ⟨g, hg, hgway⟩ := List.mem_map.1 hb
      obtain ⟨m, way, hcons, hm⟩ := exists_way_eq_cons hg
      have hhead : n :: f.way = m :: way := by
        calc n :: f.way = a := hf
          _ = b := hab
          _ = m :: way := hgway.symm.trans hcons
      exact hd.2.1 (List.head_eq_of_cons_eq hhead ▸ hm)

theorem lookup?_way (hd : d.Proper) (h : f ∈ d.files) (above : List Directory) :
    d.lookup? above f.way = some (.file f.content) := by
  obtain ⟨dirs, name, content⟩ := f
  induction dirs generalizing d above with
  | nil =>
    have hup : name ≠ ".." := (isName_of_mem_way hd h List.mem_cons_self).ne_up
    rcases entry_of_mem_files hd h with ⟨-, hentry⟩ | ⟨n, inside, g, hf, -⟩
    · simp only [TreeFile.way, List.nil_append, lookup?, if_neg hup, hentry]
      rfl
    · exact absurd (congrArg TreeFile.dirs hf) (List.cons_ne_nil n g.dirs).symm
  | cons n dirs ih =>
    have hup : n ≠ ".." := (isName_of_mem_way hd h List.mem_cons_self).ne_up
    rcases entry_of_mem_files hd h with ⟨hdirs, -⟩ | ⟨m, inside, g, hf, hentry, hinside, hg⟩
    · contradiction
    · obtain ⟨gdirs, gname, gcontent⟩ := g
      simp only [TreeFile.within, TreeFile.mk.injEq, List.cons.injEq] at hf
      obtain ⟨⟨rfl, rfl⟩, rfl, rfl⟩ := hf
      rw [← ih hinside (d :: above) hg]
      simp only [TreeFile.way, List.cons_append, lookup?, if_neg hup, hentry]

end Directory

/-! ## Trails -/

/-- The names of a location lead from a directory through others, listed with the last first, to
one. -/
inductive Trail (top : Directory) : Location → List Directory → Directory → Prop
  | top : Trail top [] [] top
  | step {l : Location} {above : List Directory} {here inside : Directory} {name : String}
      (h : Trail top l above here) (hname : name ≠ "..")
      (hentry : here.entry? name = some (.directory inside)) :
      Trail top (l ++ [name]) (here :: above) inside

namespace Trail

variable {top here : Directory} {l : Location} {above : List Directory}

theorem lookup?_append (h : Trail top l above here) (parts : List String) :
    top.lookup? [] (l ++ parts) = here.lookup? above parts := by
  induction h generalizing parts with
  | top => rfl
  | @step l above here inside name _ hname hentry ih =>
    rw [List.append_assoc, ih, List.singleton_append]
    simp only [Directory.lookup?, if_neg hname, hentry]

/-- Whatever way a look-up takes, the location that it comes to leads there, and from there it goes
on. -/
theorem exists_of_lookup? {parts : List String} {d : Directory} (h : Trail top l above here)
    (hd : here.lookup? above parts = some (.directory d)) :
    ∃ others, Trail top (parts.foldl Path.step l) others d ∧
      ∀ more, here.lookup? above (parts ++ more) = d.lookup? others more := by
  induction parts generalizing l above here with
  | nil =>
    cases Option.some.inj hd
    exact ⟨above, h, fun _ => rfl⟩
  | cons part parts ih =>
    rw [List.foldl_cons, Path.step]
    by_cases hup : part = ".."
    · rw [if_pos hup]
      cases h with
      | top =>
        simp only [Directory.lookup?, if_pos hup, List.cons_append] at hd ⊢
        exact ih .top hd
      | step hl hname hentry =>
        rw [List.dropLast_concat]
        simp only [Directory.lookup?, if_pos hup, List.cons_append] at hd ⊢
        exact ih hl hd
    · rw [if_neg hup]
      simp only [Directory.lookup?, if_neg hup, List.cons_append] at hd ⊢
      cases hentry : here.entry? part with
      | none =>
        rw [hentry] at hd
        contradiction
      | some e =>
        rw [hentry] at hd
        cases e with
        | file content =>
          dsimp only at hd
          split at hd <;> cases hd
        | directory inside => exact ih (h.step hup hentry) hd

theorem proper (h : Trail top l above here) (htop : top.Proper) :
    here.Proper ∧ ∀ name ∈ l, IsName name := by
  induction h with
  | top => exact ⟨htop, fun name hname => absurd hname List.not_mem_nil⟩
  | step _ _ hentry ih =>
    obtain ⟨hname, hinside⟩ := ih.1.of_entry hentry
    refine ⟨hinside, fun name hmem => ?_⟩
    rcases List.mem_append.1 hmem with hmem | hmem
    · exact ih.2 name hmem
    · exact List.mem_singleton.1 hmem ▸ hname

theorem split {start way : Location} (h : Trail top (start ++ way) above here) :
    ∃ mid before since, Trail top start before mid ∧ Trail mid way since here := by
  generalize hl : start ++ way = l at h
  induction h generalizing way with
  | top =>
    obtain ⟨rfl, rfl⟩ := List.append_eq_nil_iff.1 hl
    exact ⟨top, [], [], .top, .top⟩
  | @step l above here inside name h hname hentry ih =>
    rcases List.eq_nil_or_concat way with rfl | ⟨init, last, rfl⟩
    · rw [List.append_nil] at hl
      exact ⟨inside, here :: above, [], hl ▸ h.step hname hentry, .top⟩
    · rw [List.concat_eq_append, ← List.append_assoc] at hl
      obtain ⟨hinit, hlast⟩ := List.append_inj' hl rfl
      obtain ⟨mid, before, since, hstart, hway⟩ := ih hinit
      obtain rfl : last = name := List.head_eq_of_cons_eq hlast
      refine ⟨mid, before, here :: since, hstart, ?_⟩
      rw [List.concat_eq_append]
      exact hway.step hname hentry

end Trail

theorem exists_trail {top d : Directory} {p : Path} (h : top.directory? p = some d) :
    ∃ above, Trail top (p.location []) above d ∧
      ∀ more, top.lookup? [] (p.parts ++ more) = d.lookup? above more := by
  have hfind : top.lookup? [] p.parts = some (.directory d) := by
    rw [Directory.directory?, Directory.find?] at h
    split at h
    · rename_i hfind
      rw [hfind, Option.some.inj h]
    · contradiction
  have hlocation : p.location [] = p.parts.foldl Path.step [] := by
    rw [Path.location, ite_self]
  rw [hlocation]
  exact Trail.top.exists_of_lookup? hfind

end ImportSurvey.Workspace
