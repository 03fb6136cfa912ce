import ImportSurvey.NameSet
import ImportSurvey.Proofs.Platform.FileName
import ImportSurvey.Proofs.Workspace.Files
import ImportSurvey.Workspace.Discovery
/-!
# What a search finds

What excludes a directory excludes everything below it, whether the pattern is a part, a wildcard or
the front of the path. So not to enter an excluded directory saves time and loses nothing: a search
finds the files of the tree whose names count and whose paths no pattern excludes.
-/

namespace ImportSurvey.Workspace

open Platform Text

variable {way more here root : List String} {exclusion name path : String}
  {exclusions : List String} {tests : Bool} {d : Directory} {f : TreeFile} {s : Search}

/-! ## Exclusions -/

private theorem parts_joinElements (h : ∀ part ∈ way, IsPart part) :
    (Path.parse (joinElements way)).components = way := by
  rw [parse_joinElements h]
  rfl

theorem slash_prefix_joinElements_append {front : List Char} (hway : way ≠ []) (hmore : more ≠ [])
    (h : front <+: (joinElements way).toList) :
    front <+: (joinElements (way ++ more)).toList := by
  apply h.trans
  rw [joinElements_append hway hmore, String.append_assoc, String.toList_append]
  exact List.prefix_append _ _

theorem matchesExclusion_append (hway : way ≠ []) (hmore : more ≠ [])
    (hparts : ∀ part ∈ way ++ more, IsPart part)
    (h : matchesExclusion (joinElements way) exclusion = true) :
    matchesExclusion (joinElements (way ++ more)) exclusion = true := by
  have hparts' : ∀ part ∈ way, IsPart part := fun part hmem =>
    hparts part (List.mem_append_left more hmem)
  simp only [matchesExclusion, parts_joinElements hparts, parts_joinElements hparts',
    Bool.or_eq_true, Bool.and_eq_true, List.contains_append, List.any_append,
    List.isPrefixOf_iff_prefix] at h ⊢
  rcases h with (hpart | ⟨hstar, hglob⟩) | ⟨hslash, hfront⟩
  · exact Or.inl (Or.inl (Or.inl hpart))
  · exact Or.inl (Or.inr ⟨hstar, Or.inl hglob⟩)
  · exact Or.inr ⟨hslash, slash_prefix_joinElements_append hway hmore hfront⟩

theorem isExcluded_append (hway : way ≠ []) (hmore : more ≠ [])
    (hparts : ∀ part ∈ way ++ more, IsPart part)
    (h : isExcluded exclusions (joinElements way) = true) :
    isExcluded exclusions (joinElements (way ++ more)) = true := by
  obtain ⟨exclusion, hmem, hmatch⟩ := List.any_eq_true.1 h
  exact List.any_eq_true.2 ⟨exclusion, hmem, matchesExclusion_append hway hmore hparts hmatch⟩

theorem isExcluded_of_mem (hparts : ∀ part ∈ way, IsPart part) (hname : name ∈ way)
    (h : name ∈ exclusions) : isExcluded exclusions (joinElements way) = true := by
  apply List.any_eq_true.2
  refine ⟨name, h, ?_⟩
  simp [matchesExclusion, parts_joinElements hparts, hname]

@[simp] theorem isExcluded_nil (path : String) : isExcluded [] path = false := rfl

theorem isExcluded_eq_false_iff :
    isExcluded exclusions path = false ↔ ∀ e ∈ exclusions, matchesExclusion path e = false := by
  simp [isExcluded]

private theorem isExcluded_congr {others : List String} (h : ∀ e, e ∈ others ↔ e ∈ exclusions)
    (path : String) : isExcluded others path = isExcluded exclusions path := by
  rw [Bool.eq_iff_iff, isExcluded, isExcluded, List.any_eq_true, List.any_eq_true]
  simp only [h]

/-! ## Names -/

private theorem baseName_of_isName (h : IsName name) : baseName name = name.toList := by
  have hbase : ∀ c ∈ name.toList, isSeparator c = false := by
    intro c hc
    have hslash : c ≠ '/' := fun heq => h.slash_not_mem (heq ▸ hc)
    have hback : c ≠ '\\' := fun heq => h.backslash_not_mem (heq ▸ hc)
    simp [isSeparator, hslash, hback]
  have hlead : ∀ c ∈ "".toList.getLast?, isSeparator c = true := by simp
  simpa using baseName_append hlead h.ne_empty h.ne_dot hbase

def counts (tests : Bool) (f : TreeFile) : Bool :=
  isGoFile f.name && !isHidden f.name && (tests || !isTestFile f.name) &&
    f.dirs.all fun dir => !neverEntered.contains dir && !isHidden dir

/-- A visible Go file, a test only if tests are wanted, that stands in directories with ordinary
names. -/
structure Wanted (tests : Bool) (f : TreeFile) : Prop where
  isSource : ".go".toList <:+ f.name.toList
  isVisible : isHidden f.name = false
  isAllowed : tests = true ∨ ¬ "_test.go".toList <:+ f.name.toList
  isReached : ∀ dir ∈ f.dirs, dir ∉ neverEntered ∧ isHidden dir = false

theorem counts_iff (hname : IsName f.name) : counts tests f = true ↔ Wanted tests f := by
  have htest : (!isTestFile f.name) = true ↔ ¬ "_test.go".toList <:+ f.name.toList := by
    simp [isTestFile, baseName_of_isName hname, ← List.isSuffixOf_iff_suffix]
  have hdirs : (f.dirs.all fun dir => !neverEntered.contains dir && !isHidden dir) = true ↔
      ∀ dir ∈ f.dirs, dir ∉ neverEntered ∧ isHidden dir = false := by
    simp
  rw [counts, Bool.and_eq_true, Bool.and_eq_true, Bool.and_eq_true, Bool.or_eq_true, htest, hdirs,
    isGoFile, List.isSuffixOf_iff_suffix, Bool.not_eq_true']
  constructor
  · rintro ⟨⟨⟨hsource, hvisible⟩, hallowed⟩, hreached⟩
    exact ⟨hsource, hvisible, hallowed, hreached⟩
  · intro h
    exact ⟨⟨⟨h.isSource, h.isVisible⟩, h.isAllowed⟩, h.isReached⟩

/-! ## Paths -/

def pathOf (root here : Location) (f : TreeFile) : String :=
  relativeText root (here ++ f.way)

/-- The paths of what is below a location tell where it is: the location does not lie above the
root, and the way to it is made of parts without backslashes. -/
structure StartsAt (root here : Location) : Prop where
  notAbove : here <+: root → here = root
  isPart : ∀ part ∈ wayTo root here, IsPart part ∧ '\\' ∉ part.toList

namespace StartsAt

theorem relativeText_eq (h : StartsAt root here) (hway : ∀ n ∈ way, IsName n) :
    relativeText root (here ++ way) = wayText (wayTo root here ++ way) := by
  rw [relativeText, wayTo_append h.notAbove]
  apply forwardSlashes_wayText
  intro part hpart
  rcases List.mem_append.1 hpart with hpart | hpart
  · exact (h.isPart part hpart).2
  · exact (hway part hpart).backslash_not_mem

theorem isPart_append (h : StartsAt root here) (hway : ∀ n ∈ way, IsName n) :
    ∀ part ∈ wayTo root here ++ way, IsPart part := by
  intro part hpart
  rcases List.mem_append.1 hpart with hpart | hpart
  · exact (h.isPart part hpart).1
  · exact (hway part hpart).toIsPart

theorem enter (h : StartsAt root here) (hname : IsName name) : StartsAt root (here ++ [name]) where
  notAbove hpre := by
    have heq := h.notAbove ((List.prefix_append here [name]).trans hpre)
    have hlength := hpre.length_le
    rw [← heq, List.length_append, List.length_singleton] at hlength
    omega
  isPart part hpart := by
    rw [wayTo_append h.notAbove] at hpart
    rcases List.mem_append.1 hpart with hpart | hpart
    · exact h.isPart part hpart
    · rw [List.mem_singleton.1 hpart]
      exact ⟨hname.toIsPart, hname.backslash_not_mem⟩

theorem pathOf_eq (h : StartsAt root here) (hf : ∀ n ∈ f.way, IsName n) :
    pathOf root here f = joinElements (wayTo root here ++ f.way) := by
  rw [pathOf, h.relativeText_eq hf, wayText_of_ne_nil (by simp [f.way_ne_nil])]

private theorem nodup_paths (h : StartsAt root here) (hd : d.Proper) :
    (d.files.map (pathOf root here)).Nodup := by
  have hmap : d.files.map (pathOf root here) =
      (d.files.map TreeFile.way).map fun way => relativeText root (here ++ way) := by
    rw [List.map_map]
    rfl
  rw [hmap]
  apply List.Nodup.map_on _ (Directory.nodup_ways hd)
  intro way hway other hother heq
  obtain ⟨f, hf, rfl⟩ := List.mem_map.1 hway
  obtain ⟨g, hg, rfl⟩ := List.mem_map.1 hother
  have hfnames : ∀ n ∈ f.way, IsName n := fun n hn => Directory.isName_of_mem_way hd hf hn
  have hgnames : ∀ n ∈ g.way, IsName n := fun n hn => Directory.isName_of_mem_way hd hg hn
  rw [h.relativeText_eq hfnames, h.relativeText_eq hgnames,
    wayText_inj (h.isPart_append hfnames) (h.isPart_append hgnames)] at heq
  exact List.append_cancel_left heq

end StartsAt

/-! ## The walk -/

namespace Search

/-- Exclusions see a subdirectory by the way to it. -/
theorem directoryText_eq (h : StartsAt s.root here) (name : String) :
    s.directoryText here name = joinElements (wayTo s.root here ++ [name]) := by
  have hstay : ∀ n ∈ ([] : List String), IsName n := fun n hn => absurd hn List.not_mem_nil
  have htext : relativeText s.root here = wayText (wayTo s.root here) := by
    simpa using h.relativeText_eq hstay
  have hparts : ∀ part ∈ wayTo s.root here, IsPart part := fun part hpart =>
    (h.isPart part hpart).1
  rw [directoryText, htext]
  by_cases hway : wayTo s.root here = []
  · simp [hway, wayText, joinElements]
  · have hdot := joinElements_ne_dot hway hparts
    rw [wayText_of_ne_nil hway, joinElements_append hway (List.cons_ne_nil name []),
      if_neg (by simpa using hdot)]
    simp [joinElements]

theorem pathOf_within (here : Location) (name : String) (f : TreeFile) :
    pathOf s.root here (f.within name) = pathOf s.root (here ++ [name]) f := by
  rw [pathOf, pathOf, TreeFile.way_within, List.append_assoc, List.singleton_append]

theorem counts_within (name : String) (f : TreeFile) :
    counts s.tests (f.within name) = (!neverEntered.contains name && !isHidden name && counts s.tests f) := by
  simp only [counts, TreeFile.within, List.all_cons]
  ac_rfl

def keeps (s : Search) (here : Location) (f : TreeFile) : Bool :=
  counts s.tests f && !isExcluded s.exclusions (pathOf s.root here f)

/-- No file is kept below a directory that is not entered. -/
theorem keeps_within (h : StartsAt s.root here) (hname : IsName name)
    (hf : ∀ n ∈ f.way, IsName n) :
    s.keeps here (f.within name) =
      (s.entersDirectory here name && s.keeps (here ++ [name]) f) := by
  have hparts := (h.enter hname).isPart_append hf
  have hway : wayTo s.root (here ++ [name]) = wayTo s.root here ++ [name] :=
    wayTo_append h.notAbove [name]
  cases hpath : isExcluded s.exclusions (pathOf s.root (here ++ [name]) f) with
  | true => simp [keeps, pathOf_within, hpath]
  | false =>
    have hlisted : s.exclusions.contains name = false := by
      rw [← Bool.not_eq_true, List.contains_iff_mem]
      intro hmem
      have hname' : name ∈ wayTo s.root (here ++ [name]) ++ f.way := by simp [hway]
      rw [(h.enter hname).pathOf_eq hf, isExcluded_of_mem hparts hname' hmem] at hpath
      contradiction
    have hdirectory : isExcluded s.exclusions (s.directoryText here name) = false := by
      rw [← Bool.not_eq_true, directoryText_eq h, ← hway]
      intro hmatch
      have hne : wayTo s.root (here ++ [name]) ≠ [] := by simp [hway]
      rw [(h.enter hname).pathOf_eq hf, isExcluded_append hne f.way_ne_nil hparts hmatch] at hpath
      contradiction
    simp only [keeps, pathOf_within, counts_within, entersDirectory, hpath, hlisted, hdirectory,
      Bool.or_false, Bool.not_or, Bool.not_false, Bool.and_true]

/-- A search finds the files that it keeps, in the order of the tree. -/
theorem filesIn_eq (h : StartsAt s.root here) (hd : d.Proper) :
    s.filesIn here d = (d.files.filter (s.keeps here)).map (pathOf s.root here) := by
  induction d generalizing here with
  | empty => rfl
  | file name content rest ih =>
    have hkeeps : s.keeps here ⟨[], name, content⟩ = s.keepsFile here name := by
      simp [keeps, keepsFile, counts, pathOf, fileText, TreeFile.way]
    have hpath : pathOf s.root here ⟨[], name, content⟩ = s.fileText here name := rfl
    rw [filesIn, ih h hd.2.2, Directory.files, List.filter_cons, hkeeps]
    cases s.keepsFile here name with
    | false => rfl
    | true => rfl
  | sub name inside rest ihInside ihRest =>
    obtain ⟨hname, -, hinside, hrest⟩ := hd
    have hentered : (if s.entersDirectory here name then s.filesIn (here ++ [name]) inside else []) =
        ((inside.files.map (TreeFile.within name)).filter (s.keeps here)).map (pathOf s.root here) := by
      have hkeeps : ∀ f ∈ inside.files, (s.keeps here ∘ TreeFile.within name) f =
          (s.entersDirectory here name && s.keeps (here ++ [name]) f) := fun f hf =>
        keeps_within h hname fun n hn => Directory.isName_of_mem_way hinside hf hn
      rw [List.filter_map, List.filter_congr hkeeps, List.map_map]
      by_cases henters : s.entersDirectory here name = true
      · rw [if_pos henters, ihInside (h.enter hname) hinside]
        simp only [henters, Bool.true_and]
        apply List.map_congr_left
        intro f _
        exact (pathOf_within here name f).symm
      · simp [henters]
    rw [filesIn, hentered, ihRest h hrest, Directory.files, List.filter_append, List.map_append]

theorem exists_of_mem_filesIn (h : path ∈ s.filesIn here d) :
    ∃ f ∈ d.files, pathOf s.root here f = path := by
  induction d generalizing here with
  | empty => exact absurd h List.not_mem_nil
  | file name content rest ih =>
    rcases List.mem_append.1 h with h | h
    · by_cases hkept : s.keepsFile here name = true
      · rw [if_pos hkept, List.mem_singleton] at h
        exact ⟨⟨[], name, content⟩, List.mem_cons_self, h.symm⟩
      · rw [if_neg hkept] at h
        exact absurd h List.not_mem_nil
    · obtain ⟨f, hf, hpath⟩ := ih h
      exact ⟨f, List.mem_cons_of_mem _ hf, hpath⟩
  | sub name inside rest ihInside ihRest =>
    rcases List.mem_append.1 h with h | h
    · by_cases hentered : s.entersDirectory here name = true
      · rw [if_pos hentered] at h
        obtain ⟨f, hf, hpath⟩ := ihInside h
        refine ⟨f.within name, List.mem_append_left _ (List.mem_map_of_mem hf), ?_⟩
        rw [pathOf_within, hpath]
      · rw [if_neg hentered] at h
        exact absurd h List.not_mem_nil
    · obtain ⟨f, hf, hpath⟩ := ihRest h
      exact ⟨f, List.mem_append_right _ hf, hpath⟩

end Search

/-! ## The search as a whole -/

section GoFiles

variable {top : Directory} {start : Path}

theorem goFiles_eq_nil (h : top.directory? start = none) : goFiles top s start = [] := by
  rw [goFiles, h]

theorem goFiles_of_directory (h : top.directory? start = some d) :
    goFiles top s start = (s.filesIn (start.location []) d).mergeSort (· ≤ ·) := by
  rw [goFiles, h]

theorem exists_file_of_mem (h : path ∈ goFiles top s start) :
    ∃ d f, top.directory? start = some d ∧ f ∈ d.files ∧
      pathOf s.root (start.location []) f = path := by
  cases hd : top.directory? start with
  | none =>
    rw [goFiles_eq_nil hd] at h
    exact absurd h List.not_mem_nil
  | some d =>
    rw [goFiles_of_directory hd, List.mem_mergeSort] at h
    obtain ⟨f, hf, hpath⟩ := Search.exists_of_mem_filesIn h
    exact ⟨d, f, rfl, hf, hpath⟩

theorem mem_goFiles (h : top.directory? start = some d) (hd : d.Proper)
    (hstart : StartsAt s.root (start.location [])) :
    path ∈ goFiles top s start ↔
      (∃ f ∈ d.files, Wanted s.tests f ∧ pathOf s.root (start.location []) f = path) ∧
        isExcluded s.exclusions path = false := by
  rw [goFiles_of_directory h, List.mem_mergeSort, Search.filesIn_eq hstart hd, List.mem_map]
  constructor
  · rintro ⟨f, hf, rfl⟩
    obtain ⟨hmem, hkeeps⟩ := List.mem_filter.1 hf
    have hname := Directory.isName_of_mem_way hd hmem f.name_mem_way
    rw [Search.keeps, Bool.and_eq_true, counts_iff hname, Bool.not_eq_true'] at hkeeps
    exact ⟨⟨f, hmem, hkeeps.1, rfl⟩, hkeeps.2⟩
  · rintro ⟨⟨f, hmem, hwants, rfl⟩, hexcluded⟩
    have hname := Directory.isName_of_mem_way hd hmem f.name_mem_way
    refine ⟨f, List.mem_filter.2 ⟨hmem, ?_⟩, rfl⟩
    rw [Search.keeps, Bool.and_eq_true, counts_iff hname, Bool.not_eq_true']
    exact ⟨hwants, hexcluded⟩

theorem pairwise_lt_goFiles (h : top.directory? start = some d) (hd : d.Proper)
    (hstart : StartsAt s.root (start.location [])) : (goFiles top s start).Pairwise (· < ·) := by
  have hnodup : (goFiles top s start).Nodup := by
    rw [goFiles_of_directory h, Search.filesIn_eq hstart hd, (List.mergeSort_perm _ _).nodup_iff]
    exact (hstart.nodup_paths hd).sublist (List.filter_sublist.map _)
  have hsorted : (goFiles top s start).Pairwise (· ≤ ·) := by
    rw [goFiles_of_directory h]
    exact NameSet.pairwise_sort _
  refine (hsorted.and hnodup).imp ?_
  rintro a b ⟨hle, hne⟩
  apply String.not_le.1
  intro hge
  exact hne (String.le_antisymm hle hge)

private theorem eq_of_pairwise_lt {xs ys : List String} (hx : xs.Pairwise (· < ·))
    (hy : ys.Pairwise (· < ·)) (h : ∀ a, a ∈ xs ↔ a ∈ ys) : xs = ys := by
  have hset : (⟨xs, hx⟩ : NameSet) = ⟨ys, hy⟩ := NameSet.ext h
  exact congrArg NameSet.names hset

theorem startsAt_location (htop : top.Proper) (h : top.directory? start = some d)
    (habove : start.location [] <+: s.root → start.location [] = s.root) :
    d.Proper ∧ StartsAt s.root (start.location []) := by
  obtain ⟨above, htrail, -⟩ := exists_trail h
  obtain ⟨hd, hnames⟩ := htrail.proper htop
  refine ⟨hd, habove, fun part hpart => ?_⟩
  rcases mem_wayTo hpart with rfl | hmem
  · decide
  · exact ⟨(hnames part hmem).toIsPart, (hnames part hmem).backslash_not_mem⟩

/-- A search finds, in ascending order, the wanted files that nothing excludes, whatever directories
it did not enter: those of the search that excludes nothing, less what is excluded, in whatever order
the exclusions are given. -/
theorem goFiles_closed_form (htop : top.Proper)
    (habove : start.location [] <+: s.root → start.location [] = s.root) :
    (goFiles top s start).Pairwise (· < ·) ∧
    (∀ path, path ∈ goFiles top s start ↔
      ∃ d f, top.directory? start = some d ∧ f ∈ d.files ∧ Wanted s.tests f ∧
        path = relativeText s.root (start.location [] ++ f.way) ∧
        ∀ e ∈ s.exclusions, matchesExclusion path e = false) ∧
    goFiles top s start =
      (goFiles top { s with exclusions := [] } start).filter
        (fun path => !isExcluded s.exclusions path) ∧
    ∀ others, (∀ e, e ∈ others ↔ e ∈ s.exclusions) →
      goFiles top { s with exclusions := others } start = goFiles top s start := by
  cases h : top.directory? start with
  | none => simp [goFiles_eq_nil h]
  | some d =>
    obtain ⟨hd, hstart⟩ := startsAt_location htop h habove
    have hsorted : ∀ others, (goFiles top { s with exclusions := others } start).Pairwise (· < ·) :=
      fun others => pairwise_lt_goFiles h hd hstart
    have hmem : ∀ others path, path ∈ goFiles top { s with exclusions := others } start ↔
        (∃ f ∈ d.files, Wanted s.tests f ∧ pathOf s.root (start.location []) f = path) ∧
          isExcluded others path = false :=
      fun others path => mem_goFiles h hd hstart
    refine ⟨hsorted s.exclusions, fun path => ?_, ?_, fun others hothers => ?_⟩
    · rw [hmem s.exclusions, isExcluded_eq_false_iff]
      constructor
      · rintro ⟨⟨f, hf, hwanted, rfl⟩, hkept⟩
        exact ⟨d, f, rfl, hf, hwanted, rfl, hkept⟩
      · rintro ⟨d', f, hd', hf, hwanted, rfl, hkept⟩
        obtain rfl := Option.some.inj hd'
        exact ⟨⟨f, hf, hwanted, rfl⟩, hkept⟩
    · apply eq_of_pairwise_lt (hsorted s.exclusions) ((hsorted []).filter _)
      intro path
      rw [List.mem_filter, hmem, hmem, Bool.not_eq_true', isExcluded_nil]
      simp
    · apply eq_of_pairwise_lt (hsorted others) (hsorted s.exclusions)
      intro path
      rw [hmem, hmem, isExcluded_congr hothers]

def generatedBeside : Directory :=
  .sub "p" (.file "a.go" (some []) (.file "a_test.go" (some [])
    (.sub "gen" (.file "g.go" (some []) .empty)
      (.sub "vendor" (.file "v.go" (some []) .empty) .empty)))) .empty

/-- A search that leaves out what is generated enters neither directory and finds the one source. -/
theorem goFiles_closed_form_generated :
    generatedBeside.Proper ∧
    ((Path.ofLocation ["p"]).location [] <+: ["p"] → (Path.ofLocation ["p"]).location [] = ["p"]) ∧
    "a.go" ∈ goFiles generatedBeside ⟨["p"], false, ["gen"]⟩ (.ofLocation ["p"]) ∧
    "gen/g.go" ∉ goFiles generatedBeside ⟨["p"], false, ["gen"]⟩ (.ofLocation ["p"]) ∧
    goFiles generatedBeside ⟨["p"], false, ["gen"]⟩ (.ofLocation ["p"]) =
      (goFiles generatedBeside ⟨["p"], false, []⟩ (.ofLocation ["p"])).filter
        fun path => !isExcluded ["gen"] path := by
  have hproper : generatedBeside.Proper := by decide
  have hstart : (Path.ofLocation ["p"]).location [] <+: ["p"] →
      (Path.ofLocation ["p"]).location [] = ["p"] := fun _ => rfl
  obtain ⟨-, hmem, hfilter, -⟩ :=
    @goFiles_closed_form ⟨["p"], false, ["gen"]⟩ generatedBeside (.ofLocation ["p"]) hproper hstart
  refine ⟨hproper, hstart, (hmem "a.go").2 ?_, ?_, hfilter⟩
  · refine ⟨_, ⟨[], "a.go", some []⟩, rfl, List.mem_cons_self, ?_, by decide, by decide⟩
    exact ⟨by decide, by decide, Or.inr (by decide), by decide⟩
  · intro hgen
    obtain ⟨d, f, -, -, -, -, hkept⟩ := (hmem "gen/g.go").1 hgen
    exact absurd (hkept "gen" List.mem_cons_self) (by decide)

end GoFiles

end ImportSurvey.Workspace
