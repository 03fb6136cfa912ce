import ImportSurvey.Proofs.Dependency.Grouping
import ImportSurvey.Proofs.Survey.Found
import Mathlib.Data.List.Permutation
/-!
# Every file once

A survey lists each file that the search finds once, as its own text and name demand. Files that are
part of the build, and no others, make up the imports of the packages, and from the imports come the
dependencies, which share them out among themselves, and the graph.
-/

namespace ImportSurvey

open Workspace Dependency

variable {s : Session} {r : Request} {v : Survey} {files : List SurveyedFile}

/-! ## Lists by fate -/

def notes {α : Type} (files : List SurveyedFile) (note : SurveyedFile → Option α) :
    Table String α :=
  files.filterMap fun f => (note f).map (f.path, ·)

section Notes

variable {α : Type} {note : SurveyedFile → Option α}

theorem keys_notes (files : List SurveyedFile) (note : SurveyedFile → Option α) :
    (notes files note).keys = files.filterMap fun f => (note f).map fun _ => f.path := by
  simp [notes, Table.keys, List.map_filterMap, Function.comp_def]

private theorem keys_notes_sublist (files : List SurveyedFile) (note : SurveyedFile → Option α) :
    (notes files note).keys.Sublist (files.map (·.path)) := by
  rw [keys_notes]
  induction files with
  | nil => exact List.Sublist.slnil
  | cons f files ih =>
    rw [List.filterMap_cons, List.map_cons]
    cases note f with
    | none => exact ih.cons f.path
    | some a => exact ih.cons_cons f.path

theorem nodup_keys_notes (h : (files.map (·.path)).Nodup) (note : SurveyedFile → Option α) :
    (notes files note).keys.Nodup :=
  h.sublist (keys_notes_sublist files note)

private theorem get?_notes (h : (files.map (·.path)).Nodup) {f : SurveyedFile} (hmem : f ∈ files)
    {a : α} (hnote : note f = some a) : (notes files note).get? f.path = some a := by
  rw [Table.get?_eq_some_iff (nodup_keys_notes h note), notes, List.mem_filterMap]
  exact ⟨f, hmem, by rw [hnote]; rfl⟩

theorem ofList_notes (h : (files.map (·.path)).Nodup) (note : SurveyedFile → Option α) :
    Table.ofList (notes files note) = notes files note :=
  Table.ofList_eq_self (nodup_keys_notes h note)

end Notes

theorem Survey.excluded_eq (h : (v.files.map (·.path)).Nodup) :
    v.excluded = notes v.files fun f => f.fate.verdict? :=
  ofList_notes h _

theorem Survey.invalid_eq (h : (v.files.map (·.path)).Nodup) :
    v.invalid = notes v.files fun f => f.fate.error?.map (·.message) := by
  rw [← ofList_notes h, notes]
  simp only [Option.map_map]
  rfl

private theorem perm_filterMap_append {α β : Type} {g h k : α → Option β}
    (hsplit : ∀ x, g x = none ∧ h x = k x ∨ g x = k x ∧ h x = none) (xs : List α) :
    (xs.filterMap g ++ xs.filterMap h).Perm (xs.filterMap k) := by
  induction xs with
  | nil => exact List.Perm.nil
  | cons x xs ih =>
    simp only [List.filterMap_cons]
    rcases hsplit x with ⟨hg, hh⟩ | ⟨hg, hh⟩
    · rw [hg, hh]
      cases k x with
      | none => exact ih
      | some b => exact List.perm_middle.trans (ih.cons b)
    · rw [hg, hh]
      cases k x with
      | none => exact ih
      | some b => exact ih.cons b

/-- The lists of a survey by fate hold the path of each file once. -/
theorem Survey.perm_paths (h : (v.files.map (·.path)).Nodup) :
    (v.included ++ v.excluded.keys ++ v.invalid.keys ++ v.unreadable).Perm
      (v.files.map (·.path)) := by
  have hunreadable : v.unreadable =
      v.files.filterMap fun f => if f.fate = .unreadable then some f.path else none := by
    rw [unreadable, ← List.filterMap_eq_filter, List.map_filterMap]
    apply List.filterMap_congr
    intro f _
    by_cases hf : f.fate = .unreadable <;> simp [Option.guard, hf]
  have hread : (v.included ++ v.excluded.keys).Perm (v.files.filterMap fun f =>
      (f.fate.report?.map fun _ => f.path).or (f.fate.verdict?.map fun _ => f.path)) := by
    rw [excluded_eq h, keys_notes]
    apply perm_filterMap_append
    intro f
    cases f.fate <;> simp [Fate.report?, Fate.verdict?]
  have hdecided : (v.included ++ v.excluded.keys ++ v.invalid.keys).Perm (v.files.filterMap fun f =>
      if f.fate = .unreadable then none else some f.path) := by
    apply (hread.append_right _).trans
    rw [invalid_eq h, keys_notes]
    apply perm_filterMap_append
    intro f
    cases f.fate <;> simp [Fate.report?, Fate.verdict?, Fate.error?]
  apply (hdecided.append_right _).trans
  rw [hunreadable, ← List.filterMap_eq_map]
  apply perm_filterMap_append
  intro f
  by_cases hf : f.fate = .unreadable <;> simp [hf]

/-! ## Lists and analysis -/

def analysisOf (tags : NameSet) (f : TreeFile) :
    Option (Except Constraint.InvalidTerm FileReport) :=
  f.text.map fun source => analyze source tags (some f.name)

def Survey.Lists (v : Survey) (path : String) :
    Option (Except Constraint.InvalidTerm FileReport) → Prop
  | none => path ∈ v.unreadable
  | some (.error e) => v.invalid.get? path = some e.message
  | some (.ok report) =>
    if report.isIncluded then path ∈ v.included else v.excluded.get? path = some report.verdict

section Lists

variable {f : SurveyedFile} (hmem : f ∈ v.files)

include hmem

theorem Survey.mem_included {report : FileReport} (hf : f.fate = .included report) :
    f.path ∈ v.included :=
  List.mem_filterMap.2 ⟨f, hmem, by rw [hf]; rfl⟩

theorem Survey.mem_unreadable (hf : f.fate = .unreadable) : f.path ∈ v.unreadable :=
  List.mem_map.2 ⟨f, List.mem_filter.2 ⟨hmem, by simpa using hf⟩, rfl⟩

theorem Survey.get?_excluded (h : (v.files.map (·.path)).Nodup) {verdict : Verdict}
    (hf : f.fate = .excluded verdict) : v.excluded.get? f.path = some verdict := by
  rw [excluded_eq h]
  exact get?_notes h hmem (by rw [hf]; rfl)

theorem Survey.get?_invalid (h : (v.files.map (·.path)).Nodup) {e : Constraint.InvalidTerm}
    (hf : f.fate = .invalid e) : v.invalid.get? f.path = some e.message := by
  rw [invalid_eq h]
  exact get?_notes h hmem (by rw [hf]; rfl)

end Lists

section Analysis

variable {tags : NameSet} {f : TreeFile} {report : FileReport}

private theorem ofText_of_none (h : analysisOf tags f = none) :
    Fate.ofText tags f.name f.text = .unreadable := by
  rw [Option.map_eq_none_iff.1 h]
  rfl

private theorem ofText_of_error {e : Constraint.InvalidTerm}
    (h : analysisOf tags f = some (.error e)) :
    Fate.ofText tags f.name f.text = .invalid e := by
  obtain ⟨source, htext, hanalyze⟩ := Option.map_eq_some_iff.1 h
  simp only [htext, Fate.ofText, hanalyze]

private theorem ofText_of_ok (h : analysisOf tags f = some (.ok report)) :
    Fate.ofText tags f.name f.text =
      if report.isIncluded then .included report else .excluded report.verdict := by
  obtain ⟨source, htext, hanalyze⟩ := Option.map_eq_some_iff.1 h
  simp only [htext, Fate.ofText, hanalyze]

theorem ofText_eq_included_iff :
    Fate.ofText tags f.name f.text = .included report ↔
      analysisOf tags f = some (.ok report) ∧ report.isIncluded = true := by
  constructor
  · intro h
    match hanalysis : analysisOf tags f with
    | none =>
      rw [ofText_of_none hanalysis] at h
      contradiction
    | some (.error e) =>
      rw [ofText_of_error hanalysis] at h
      contradiction
    | some (.ok other) =>
      rw [ofText_of_ok hanalysis] at h
      by_cases hincluded : other.isIncluded = true
      · rw [if_pos hincluded] at h
        rw [← Fate.included.inj h]
        exact ⟨rfl, hincluded⟩
      · rw [if_neg hincluded] at h
        contradiction
  · rintro ⟨hanalysis, hincluded⟩
    rw [ofText_of_ok hanalysis, if_pos hincluded]

theorem Survey.lists_of_mem (h : (v.files.map (·.path)).Nodup) {path : String}
    (hmem : ⟨path, f.text, Fate.ofText tags f.name f.text⟩ ∈ v.files) :
    v.Lists path (analysisOf tags f) := by
  match hanalysis : analysisOf tags f with
  | none =>
    rw [ofText_of_none hanalysis] at hmem
    exact mem_unreadable hmem rfl
  | some (.error e) =>
    rw [ofText_of_error hanalysis] at hmem
    exact get?_invalid hmem h rfl
  | some (.ok report) =>
    rw [ofText_of_ok hanalysis] at hmem
    rw [Lists]
    by_cases hincluded : report.isIncluded = true
    · rw [if_pos hincluded] at hmem ⊢
      exact mem_included hmem rfl
    · rw [if_neg hincluded] at hmem ⊢
      exact get?_excluded hmem h rfl

end Analysis

/-! ## Files of the build -/

def Request.Builds (r : Request) (s : Session) (f : TreeFile) (imports : List String) : Prop :=
  r.Finds s f ∧ ∃ report, analysisOf r.tags f = some (.ok report) ∧ report.isIncluded = true ∧
    report.imports = imports

theorem exists_builds {d : Directory} {dirs : List String} {report : FileReport} (hs : s.IsRooted)
    (hd : s.tree.directory? (r.root s) = some d)
    (hfile : ∃ f ∈ d.files, f.dirs = dirs ∧ relativeText s.rootAt (r.rootAt s ++ f.way) ∈
        Search.filesIn ⟨s.rootAt, r.tests, s.scope.exclusions⟩ (r.rootAt s) d ∧
      analysisOf r.tags f = some (.ok report))
    (hincluded : report.isIncluded = true) : ∃ f, r.Builds s f report.imports ∧ f.dirs = dirs := by
  obtain ⟨f, hf, hdirs, hkept, hanalysis⟩ := hfile
  refine ⟨f, ⟨⟨d, hd, hf, ?_⟩, report, hanalysis, hincluded, rfl⟩, hdirs⟩
  rw [hs.found_eq, goFiles_of_directory hd, List.mem_mergeSort, hs.pathOf_eq_relativeText]
  exact hkept

theorem exists_built_iff (h : r.InTree s) (dir : String) (Q : List String → Prop) :
    (∃ x ∈ built (r.filesNow s), r.key s x.1 = dir ∧ Q x.2.imports) ↔
      ∃ f imports, r.Builds s f imports ∧ r.keyOf s f = dir ∧ Q imports := by
  constructor
  · rintro ⟨⟨g, report⟩, hg, hkey, hQ⟩
    obtain ⟨hmem, hfate⟩ := mem_built.1 hg
    obtain ⟨f, hf, rfl⟩ := h.mem_filesNow.1 hmem
    dsimp only at hfate hkey hQ
    obtain ⟨hanalysis, hincluded⟩ := ofText_eq_included_iff.1 hfate
    exact ⟨f, report.imports, ⟨hf, report, hanalysis, hincluded, rfl⟩, hkey, hQ⟩
  · rintro ⟨f, imports, ⟨hf, report, hanalysis, hincluded, rfl⟩, hdir, hQ⟩
    have hmem := h.mem_filesNow.2 ⟨f, hf, rfl⟩
    rw [ofText_eq_included_iff.2 ⟨hanalysis, hincluded⟩] at hmem
    exact ⟨(_, report), mem_built.2 ⟨hmem, rfl⟩, hdir, hQ⟩

/-- The imports of a survey hold what the built files import, each file under its key. -/
structure Survey.FilesUnder (v : Survey) (key : TreeFile → String) (r : Request) (s : Session) :
    Prop where
  packages : ∀ dir, dir ∈ v.imports.keys ↔ ∃ f imports, r.Builds s f imports ∧ key f = dir
  imports : ∀ dir paths, v.imports.get? dir = some paths → ∀ p, p ∈ paths ↔
    ∃ f imports, r.Builds s f imports ∧ key f = dir ∧ p ∈ imports

theorem filesUnder_collect (h : r.InTree s) :
    (r.collect s (r.filesNow s)).FilesUnder (r.keyOf s) r s := by
  constructor
  case packages =>
    intro dir
    have hiff := exists_built_iff h dir fun _ => True
    simp only [and_true] at hiff
    rw [imports_collect, mem_keys_imports, hiff]
  case imports =>
    intro dir paths hget p
    rw [imports_collect] at hget
    exact (mem_imports hget p).trans (exists_built_iff h dir fun imports => p ∈ imports)

theorem Survey.FilesUnder.congr {key other : TreeFile → String} (h : v.FilesUnder key r s)
    (hkey : ∀ f, r.Finds s f → key f = other f) : v.FilesUnder other r s := by
  constructor
  case packages =>
    intro dir
    apply (h.packages dir).trans
    apply exists₂_congr
    intro f imports
    exact and_congr_right fun hf => by rw [hkey f hf.1]
  case imports =>
    intro dir paths hget p
    apply (h.imports dir paths hget p).trans
    apply exists₂_congr
    intro f imports
    exact and_congr_right fun hf => by rw [hkey f hf.1]

def Survey.builtFiles (v : Survey) : List SurveyedFile :=
  v.files.filter fun f => f.fate.report?.isSome

theorem built_filter (files : List SurveyedFile) :
    built (files.filter fun f => f.fate.report?.isSome) = built files := by
  rw [built, built, List.filterMap_filter]
  apply List.filterMap_congr
  intro f _
  cases f.fate.report? <;> rfl

/-! ## The account -/

/-- A survey accounts for what a request finds. -/
structure Survey.Accounts (v : Survey) (r : Request) (s : Session) : Prop where
  nodup : (r.found s).Nodup
  /-- The four lists hold each path found, and hold it once. -/
  once : (v.included ++ v.excluded.keys ++ v.invalid.keys ++ v.unreadable).Perm (r.found s)
  count : v.files.length =
    v.included.length + v.excluded.length + v.invalid.length + v.unreadable.length
  isFile : ∀ path ∈ r.found s, ∃ f, r.Finds s f ∧ r.pathOf s f = path
  lists : ∀ f, r.Finds s f → v.Lists (r.pathOf s f) (analysisOf r.tags f)
  packages : ∀ dir, dir ∈ v.imports.keys ↔
    ∃ f imports, r.Builds s f imports ∧ wayText f.dirs = dir
  imports : ∀ dir paths, v.imports.get? dir = some paths → ∀ p, p ∈ paths ↔
    ∃ f imports, r.Builds s f imports ∧ wayText f.dirs = dir ∧ p ∈ imports
  /-- The dependencies provide what the packages import. -/
  provided : ∀ p, (∃ root d, v.dependencies.get? root = some d ∧ p ∈ d.packages) ↔
    ∃ dir paths, v.imports.get? dir = some paths ∧ p ∈ paths
  apart : ∀ root other d e, v.dependencies.get? root = some d →
    v.dependencies.get? other = some e → ∀ p ∈ d.packages, p ∈ e.packages → root = other
  /-- Without the files that are no part of the build all would be the same. -/
  onlyBuilt : v.imports = (r.collect s v.builtFiles).imports ∧
    v.dependencies = (r.collect s v.builtFiles).dependencies ∧
    v.graph = (r.collect s v.builtFiles).graph

theorem paths_filesNow (r : Request) (s : Session) :
    (r.filesNow s).map (·.path) = r.found s := by
  rw [Request.filesNow, List.map_map]
  exact List.map_id _

theorem accounts_collect (h : r.InProject s) : (r.collect s (r.filesNow s)).Accounts r s := by
  have hnodup : ((r.collect s (r.filesNow s)).files.map (·.path)).Nodup := by
    rw [files_collect, paths_filesNow]
    exact h.nodup_found
  have hperm := Survey.perm_paths hnodup
  have hbuilt : (r.collect s (r.filesNow s)).imports =
      (r.collect s (r.collect s (r.filesNow s)).builtFiles).imports := by
    rw [Survey.builtFiles, files_collect, imports_collect, imports_collect, foldl_addImports,
      foldl_addImports, built_filter]
  have hkeys := nodup_keys_collect r s (r.filesNow s)
  have hfiles := (filesUnder_collect h.inTree).congr fun _ => h.keyOf_eq
  rw [files_collect, paths_filesNow] at hperm
  constructor
  case nodup => exact h.nodup_found
  case once => exact hperm
  case count =>
    have hlength := hperm.length_eq
    rw [← paths_filesNow, List.length_map, List.length_append, List.length_append,
      List.length_append] at hlength
    rw [files_collect, ← hlength, Table.keys, Table.keys, List.length_map, List.length_map]
  case isFile =>
    intro path hpath
    exact h.isRooted.exists_of_mem_found hpath
  case lists =>
    intro f hf
    apply Survey.lists_of_mem hnodup
    rw [files_collect, h.inTree.mem_filesNow]
    exact ⟨f, hf, rfl⟩
  case packages => exact hfiles.packages
  case imports => exact hfiles.imports
  case provided =>
    intro p
    rw [dependencies_collect, exists_package_iff, mem_allImports hkeys]
  case apart =>
    intro root other d e hd he p hpd hpe
    rw [dependencies_collect] at hd he
    exact (mem_of_mem_packages hd hpd).2.symm.trans (mem_of_mem_packages he hpe).2
  case onlyBuilt =>
    refine ⟨hbuilt, ?_, ?_⟩
    · rw [dependencies_collect, dependencies_collect, hbuilt]
    · rw [graph_collect, graph_collect, hbuilt]

/-- A survey is made, of the files that the search finds, and accounts for each of them; it leaves
nothing false to be remembered. -/
theorem survey_accounts (hs : s.UpToDate) (hcapacity : 0 < s.scope.searches.capacity)
    (h : r.InProject s) :
    ∃ v s', survey s r = .ok (v, s') ∧ s'.UpToDate ∧
      (∃ s₁, s.search (r.root s).text r.tests = .ok (r.found s, s₁)) ∧ v.Accounts r s := by
  obtain ⟨s', hsurvey, hs'⟩ := exists_survey_eq hs hcapacity r
  obtain ⟨searches, hsearch, -⟩ := hs.search_eq hcapacity (r.root s).text r.tests
  exact ⟨_, s', hsurvey, hs', ⟨_, hsearch⟩, accounts_collect h⟩

def mixedFates : Directory :=
  sourceFile "a.go" "package a\nimport \"fmt\"\n"
    (sourceFile "a_windows.go" "package a\n"
      (sourceFile "b.go" "// +build !!x\n\npackage a\n"
        (.file "c.go" none .empty)))

theorem inProject_mixedFates : Request.InProject {} (sessionIn mixedFates) where
  isAbsolute := by decide
  isPart := by decide
  proper d hd := by
    have hproject : (sessionIn mixedFates).tree.directory? (sessionIn mixedFates).root =
        some mixedFates := rfl
    rw [← Option.some.inj (hproject.symm.trans hd)]
    decide
  below := by decide

/-- The four files of the project are each in the list of their fate. -/
theorem survey_accounts_mixedFates :
    (sessionIn mixedFates).UpToDate ∧ 0 < (sessionIn mixedFates).scope.searches.capacity ∧
      Request.InProject {} (sessionIn mixedFates) ∧
      ∃ v s', survey (sessionIn mixedFates) {} = .ok (v, s') ∧
        v.Accounts {} (sessionIn mixedFates) ∧ "a.go" ∈ v.included ∧
        v.excluded.get? "a_windows.go" = some .excludedByFileName ∧
        v.invalid.get? "b.go" =
          some "Invalid build constraint term '!!x' on line 1: multiple negation" ∧
        "c.go" ∈ v.unreadable := by
  have hs := upToDate_sessionIn mixedFates
  have hr := inProject_mixedFates
  obtain ⟨v, s', hsurvey, -, -, haccounts⟩ := survey_accounts hs Nat.one_pos hr
  have hfound : Request.found {} (sessionIn mixedFates) =
      ["a.go", "a_windows.go", "b.go", "c.go"] := by
    cbv
  have hname : ∀ f ∈ mixedFates.files, Request.pathOf {} (sessionIn mixedFates) f = f.name := by
    decide +kernel
  have hmem : ∀ f ∈ mixedFates.files, f.name ∈ ["a.go", "a_windows.go", "b.go", "c.go"] := by
    decide
  have hlists : ∀ f ∈ mixedFates.files, v.Lists f.name (analysisOf ∅ f) := by
    intro f hf
    have hpath := hname f hf
    have hpathOf : Request.pathOf {} (sessionIn mixedFates) f ∈
        Request.found {} (sessionIn mixedFates) := by
      rw [hpath, hfound]
      exact hmem f hf
    rw [← hpath]
    exact haccounts.lists f ⟨mixedFates, rfl, hf, hpathOf⟩
  have hanalyses : mixedFates.files.map (fun f => (f.name, analysisOf ∅ f)) =
      [("a.go", some (.ok ⟨.included, ["fmt"], some "a"⟩)),
        ("a_windows.go", some (.ok (.excluded .excludedByFileName))),
        ("b.go", some (.error ⟨"!!x", some 1⟩)), ("c.go", none)] := by
    decide +kernel
  have hpairs : ∀ x ∈ mixedFates.files.map (fun f => (f.name, analysisOf ∅ f)),
      v.Lists x.1 x.2 := List.forall_mem_map.2 hlists
  rw [hanalyses] at hpairs
  obtain ⟨ha, hwindows, hb, hc, -⟩ := by simpa only [List.forall_mem_cons] using hpairs
  exact ⟨hs, Nat.one_pos, hr, v, s', hsurvey, haccounts, ha, hwindows, hb, hc⟩

end ImportSurvey
