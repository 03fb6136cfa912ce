import ImportSurvey.Proofs.Survey.Accounts
/-!
# Package directories

A survey files the imports of the built files by package directory. Where the surveyed directory does
not lie above the project's root, or where the root is the working directory, the key is the way to
the file's directory from the surveyed one, so that files share a key if they share the directory. A
way that first goes up from the root and then comes down again along it is followed in the working
directory, where other names may stand: then a package is filed under a name that it does not have,
even that of another package.
-/

namespace ImportSurvey

open Workspace Text

variable {s : Session} {r : Request}

/-- A survey is made with the imports of each built file under the file's key. The key is the way to
the file's directory from the surveyed one exactly if the working directory can stand in for the
root along this way; if the surveyed directory does not lie above the root, or the root is the
working directory, every key is, and files have one key exactly if they have one directory. -/
theorem survey_filesUnder (hs : s.UpToDate) (hcapacity : 0 < s.scope.searches.capacity)
    (h : r.InTree s) (hhome : ∀ n ∈ s.home, IsPart n ∧ n ≠ "..") :
    ∃ v s', survey s r = .ok (v, s') ∧ v.FilesUnder (r.keyOf s) r s ∧
      (∀ f, r.Finds s f →
        (r.keyOf s f = wayText f.dirs ↔ StandsIn s.home (r.rootAt s) s.rootAt f.dirs)) ∧
      ((r.rootAt s <+: s.rootAt → r.rootAt s = s.rootAt) ∨ s.home = s.rootAt →
        v.FilesUnder (fun f => wayText f.dirs) r s ∧
        ∀ f f', r.Finds s f → r.Finds s f' → (r.keyOf s f = r.keyOf s f' ↔ f.dirs = f'.dirs)) := by
  obtain ⟨s', hsurvey, -⟩ := exists_survey_eq hs hcapacity r
  have hfiles := filesUnder_collect h
  refine ⟨_, s', hsurvey, hfiles, fun f hf => h.keyOf_eq_iff hhome hf, fun hplace => ⟨?_, ?_⟩⟩
  · exact hfiles.congr fun f hf => h.keyOf_eq hplace hf
  · intro f f' hf hf'
    rw [h.keyOf_eq hplace hf, h.keyOf_eq hplace hf']
    exact h.wayText_dirs_inj hf hf'

/-! ## Above the root -/

def twoPackages : Directory :=
  .sub "sub" (sourceFile "a.go" "package a\nimport \"fmt\"\n" .empty)
    (.sub "project" (sourceFile "c.go" "package c\nimport \"os\"\n" .empty) .empty)

def insideSub (home : Location) : Session :=
  .start twoPackages home (some (.ofLocation ["sub"])) 1

def aboveRoot : Request :=
  { path := ".." }

theorem isRooted_insideSub (home : Location) : (insideSub home).IsRooted where
  isAbsolute := rfl
  isPart := by
    change ∀ part ∈ ["sub"], IsPart part
    decide

theorem inTree_insideSub (home : Location) : aboveRoot.InTree (insideSub home) :=
  aboveRoot.inTree_of_proper (isRooted_insideSub home) (by decide : twoPackages.Proper) ⟨_, rfl⟩

theorem builds_twoPackages (home : Location) :
    ∃ f f', aboveRoot.Builds (insideSub home) f ["fmt"] ∧ f.dirs = ["sub"] ∧
      aboveRoot.Builds (insideSub home) f' ["os"] ∧ f'.dirs = ["project"] := by
  have hroot := isRooted_insideSub home
  have hsub : ∃ f ∈ twoPackages.files, f.dirs = ["sub"] ∧
      relativeText ["sub"] f.way ∈ Search.filesIn ⟨["sub"], false, []⟩ [] twoPackages ∧
      analysisOf ∅ f = some (.ok ⟨.included, ["fmt"], some "a"⟩) := by
    decide +kernel
  have hproject : ∃ f ∈ twoPackages.files, f.dirs = ["project"] ∧
      relativeText ["sub"] f.way ∈ Search.filesIn ⟨["sub"], false, []⟩ [] twoPackages ∧
      analysisOf ∅ f = some (.ok ⟨.included, ["os"], some "c"⟩) := by
    decide +kernel
  obtain ⟨f, hf, hdirs⟩ := exists_builds (r := aboveRoot) hroot rfl hsub rfl
  obtain ⟨f', hf', hdirs'⟩ := exists_builds (r := aboveRoot) hroot rfl hproject rfl
  exact ⟨f, f', hf, hdirs, hf', hdirs'⟩

/-- From the root itself both packages are filed under their names. -/
theorem survey_filesUnder_sub :
    (insideSub ["sub"]).UpToDate ∧ 0 < (insideSub ["sub"]).scope.searches.capacity ∧
      aboveRoot.InTree (insideSub ["sub"]) ∧ (∀ n ∈ (insideSub ["sub"]).home, IsPart n ∧ n ≠ "..") ∧
      ∃ v s', survey (insideSub ["sub"]) aboveRoot = .ok (v, s') ∧
        "sub" ∈ v.imports.keys ∧ "project" ∈ v.imports.keys := by
  have hs := Session.upToDate_start twoPackages ["sub"] (some (.ofLocation ["sub"])) 1
  have hhome : ∀ n ∈ (insideSub ["sub"]).home, IsPart n ∧ n ≠ ".." := by
    change ∀ n ∈ ["sub"], IsPart n ∧ n ≠ ".."
    decide
  obtain ⟨v, s', hsurvey, -, -, hplaced⟩ :=
    survey_filesUnder (s := insideSub ["sub"]) hs Nat.one_pos (inTree_insideSub ["sub"]) hhome
  obtain ⟨hfiles, -⟩ := hplaced (Or.inr rfl)
  obtain ⟨f, f', hf, hdirs, hf', hdirs'⟩ := builds_twoPackages ["sub"]
  refine ⟨hs, Nat.one_pos, inTree_insideSub ["sub"], hhome, v, s', hsurvey, ?_, ?_⟩
  · exact (hfiles.packages "sub").2 ⟨f, _, hf, by rw [hdirs]; decide⟩
  · exact (hfiles.packages "project").2 ⟨f', _, hf', by rw [hdirs']; decide⟩

/-- From a working directory of another name than the root's both packages are filed under one
name. -/
theorem one_key_for_twoPackages :
    ∃ v s' f f', survey (insideSub ["project"]) aboveRoot = .ok (v, s') ∧
      aboveRoot.Builds (insideSub ["project"]) f ["fmt"] ∧ f.dirs = ["sub"] ∧
      aboveRoot.Builds (insideSub ["project"]) f' ["os"] ∧ f'.dirs = ["project"] ∧
      ∀ dir, dir ∈ v.imports.keys ↔ dir = "project" := by
  obtain ⟨s', hsurvey, -⟩ := exists_survey_eq
    (Session.upToDate_start twoPackages ["project"] (some (.ofLocation ["sub"])) 1) Nat.one_pos aboveRoot
  obtain ⟨f, f', hf, hdirs, hf', hdirs'⟩ := builds_twoPackages ["project"]
  have hfiles := filesUnder_collect (inTree_insideSub ["project"])
  have hall : ∀ f ∈ twoPackages.files, aboveRoot.keyOf (insideSub ["project"]) f = "project" := by
    decide +kernel
  have hkey : ∀ f, aboveRoot.Finds (insideSub ["project"]) f →
      aboveRoot.keyOf (insideSub ["project"]) f = "project" := by
    rintro f ⟨d, hd, hmem, -⟩
    obtain rfl : twoPackages = d := Option.some.inj hd
    exact hall f hmem
  refine ⟨_, s', f, f', hsurvey, hf, hdirs, hf', hdirs', fun dir => (hfiles.packages dir).trans ?_⟩
  constructor
  · rintro ⟨f, imports, hf, rfl⟩
    exact hkey f hf.1
  · rintro rfl
    exact ⟨f, _, hf, hkey f hf.1⟩

end ImportSurvey
