import ImportSurvey.Proofs.Survey.PackageDirectory
import ImportSurvey.Proofs.Workspace.ModuleFile
/-!
# Imports within a project

A package of a project has two names: the way to its directory, under which its imports are filed,
and what is left of an import path behind the module's. For the module that the surveyed directory
declares they are one name. So an import of another package is an edge between the nodes of the two
packages, and leads to no node that is not a package.
-/

namespace ImportSurvey

open Workspace Dependency Text

variable {s : Session} {r : Request} {v : Survey} {m : String} {dirs : List String}

/-! ## Two names of a package -/

/-- The path by which files import the package of a module that stands in a directory. -/
def importPath (m : String) (dirs : List String) : String :=
  if dirs = [] then m else m ++ "/" ++ joinElements dirs

/-- Cut off an import path, the module leaves the way to the package's directory. -/
theorem packageNode?_importPath (hm : m ≠ "") (dirs : List String) :
    packageNode? (some m) (importPath m dirs) = some (wayText dirs) := by
  rw [packageNode?, if_neg hm]
  by_cases hdirs : dirs = []
  · rw [importPath, if_pos hdirs, if_pos rfl, hdirs]
    rfl
  · have hbehind : (importPath m dirs).toList = (m ++ "/").toList ++ (joinElements dirs).toList := by
      rw [importPath, if_neg hdirs, String.toList_append]
    have hother : importPath m dirs ≠ m := by
      intro heq
      have hlength := congrArg List.length hbehind
      rw [heq, List.length_append, String.toList_append, List.length_append] at hlength
      simp only [String.reduceToList, List.length_singleton] at hlength
      omega
    rw [if_neg hother, isPrefixOf?_eq_some.2 hbehind, Option.map_some, String.ofList_toList,
      wayText_of_ne_nil hdirs]

/-! ## Edges between packages -/

structure Survey.ShowsImport (v : Survey) (importer imported : String) : Prop where
  imports : ∃ node, v.graph.get? importer = some node ∧ imported ∈ node.imports
  importers : ∃ node, v.graph.get? imported = some node ∧ importer ∈ node.importers

theorem showsImport_collect {files : List SurveyedFile} {importer imported : String}
    (h : Links (r.context s) (r.collect s files).imports importer imported) :
    (r.collect s files).ShowsImport importer imported := by
  have hkeys := nodup_keys_collect r s files
  constructor
  · rw [graph_collect]
    exact Graph.mem_importsOf_iff.1 ((mem_importsOf_graphOf hkeys).2 h)
  · rw [graph_collect]
    exact Graph.mem_importersOf_iff.1 ((mem_importersOf_graphOf hkeys).2 h)

/-- A built file's package is filed under the way to its directory, with what the built files of this
directory import. -/
theorem Survey.FilesUnder.exists_imports (h : v.FilesUnder (fun f => wayText f.dirs) r s)
    (hr : r.InTree s) {f : TreeFile} {imports : List String} (hf : r.Builds s f imports) :
    ∃ paths, v.imports.get? (wayText f.dirs) = some paths ∧ ∀ p, p ∈ paths ↔
      ∃ f' imports', r.Builds s f' imports' ∧ f'.dirs = f.dirs ∧ p ∈ imports' := by
  obtain ⟨paths, hget⟩ := Table.mem_keys_iff.1 ((h.packages (wayText f.dirs)).2 ⟨f, imports, hf, rfl⟩)
  refine ⟨paths, hget, fun p => (h.imports _ _ hget p).trans ?_⟩
  apply exists₂_congr
  intro f' imports'
  exact and_congr_right fun hf' => and_congr_left fun _ => hr.wayText_dirs_inj hf'.1 hf.1

/-- Within a module that the surveyed directory declares, an import of another package joins the nodes
of the two packages, which have the names under which the packages' own imports are filed. -/
theorem survey_links_packages (hs : s.UpToDate) (hcapacity : 0 < s.scope.searches.capacity)
    (h : r.InTree s) (habove : r.rootAt s <+: s.rootAt → r.rootAt s = s.rootAt)
    (hown : r.modulePath = none) (hm : modulePath? s.tree (r.root s) = some m) :
    ∃ v s', survey s r = .ok (v, s') ∧ v.modulePath = some m ∧
      v.FilesUnder (fun f => wayText f.dirs) r s ∧
      ∀ f imports f' imports', r.Builds s f imports → r.Builds s f' imports' → f.dirs ≠ f'.dirs →
        importPath m f'.dirs ∈ imports →
        v.ShowsImport (wayText f.dirs) (wayText f'.dirs) ∧
        ∃ paths, v.imports.get? (wayText f'.dirs) = some paths ∧ ∀ p, p ∈ paths ↔
          ∃ f'' imports'', r.Builds s f'' imports'' ∧ f''.dirs = f'.dirs ∧ p ∈ imports'' := by
  obtain ⟨s', hsurvey, -⟩ := exists_survey_eq hs hcapacity r
  have hmodule : (r.context s).modulePath = some m := by
    rw [Request.context, Request.module?, hown, hm]
    rfl
  have hfiles := (filesUnder_collect h).congr fun _ => h.keyOf_eq (Or.inl habove)
  refine ⟨_, s', hsurvey, hmodule, hfiles, fun f imports f' imports' hf hf' hne hp => ?_⟩
  refine ⟨showsImport_collect ⟨?_, ?_⟩, hfiles.exists_imports h hf'⟩
  · intro heq
    exact hne ((h.wayText_dirs_inj hf.1 hf'.1).1 heq.symm)
  · obtain ⟨paths, hget, hpaths⟩ := hfiles.exists_imports h hf
    refine ⟨paths, hget, importPath m f'.dirs, (hpaths _).2 ⟨f, imports, hf, rfl, hp⟩, ?_⟩
    rw [nodeOf, hmodule, packageNode?_importPath (modulePath?_ne_empty hm), Option.getD_some]

def oneModule : Directory :=
  sourceFile "go.mod" "module example.com/m\n"
    (sourceFile "a.go" "package a\nimport \"example.com/m/x/y\"\n"
      (.sub "x" (.sub "y" (sourceFile "y.go" "package y\nimport \"fmt\"\n" .empty) .empty) .empty))

def downAndUp : Request :=
  { path := "x/.." }

theorem isRooted_oneModule : (sessionIn oneModule).IsRooted :=
  ⟨by decide, by decide⟩

theorem inTree_oneModule : downAndUp.InTree (sessionIn oneModule) :=
  downAndUp.inTree_of_proper isRooted_oneModule (by decide) ⟨oneModule, rfl⟩

theorem builds_oneModule :
    ∃ f f', downAndUp.Builds (sessionIn oneModule) f ["example.com/m/x/y"] ∧ f.dirs = [] ∧
      downAndUp.Builds (sessionIn oneModule) f' ["fmt"] ∧ f'.dirs = ["x", "y"] := by
  have hfront : ∃ f ∈ oneModule.files, f.dirs = [] ∧
      relativeText ["p"] (["p"] ++ f.way) ∈ Search.filesIn ⟨["p"], false, []⟩ ["p"] oneModule ∧
      analysisOf ∅ f = some (.ok ⟨.included, ["example.com/m/x/y"], some "a"⟩) := by
    decide +kernel
  have hbehind : ∃ f ∈ oneModule.files, f.dirs = ["x", "y"] ∧
      relativeText ["p"] (["p"] ++ f.way) ∈ Search.filesIn ⟨["p"], false, []⟩ ["p"] oneModule ∧
      analysisOf ∅ f = some (.ok ⟨.included, ["fmt"], some "y"⟩) := by
    decide +kernel
  obtain ⟨f, hf, hdirs⟩ := exists_builds (r := downAndUp) isRooted_oneModule rfl hfront rfl
  obtain ⟨f', hf', hdirs'⟩ := exists_builds (r := downAndUp) isRooted_oneModule rfl hbehind rfl
  exact ⟨f, f', hf, hdirs, hf', hdirs'⟩

/-- The import from the one package to the other is shown, at the names of their directories. -/
theorem survey_links_packages_oneModule :
    (sessionIn oneModule).UpToDate ∧ 0 < (sessionIn oneModule).scope.searches.capacity ∧
      downAndUp.InTree (sessionIn oneModule) ∧
      (downAndUp.rootAt (sessionIn oneModule) <+: (sessionIn oneModule).rootAt →
        downAndUp.rootAt (sessionIn oneModule) = (sessionIn oneModule).rootAt) ∧
      downAndUp.modulePath = none ∧
      modulePath? (sessionIn oneModule).tree (downAndUp.root (sessionIn oneModule)) =
        some "example.com/m" ∧
      ∃ v s', survey (sessionIn oneModule) downAndUp = .ok (v, s') ∧ v.ShowsImport "." "x/y" ∧
        ∃ paths, v.imports.get? "x/y" = some paths ∧ "fmt" ∈ paths := by
  have hs := upToDate_sessionIn oneModule
  have habove : downAndUp.rootAt (sessionIn oneModule) <+: (sessionIn oneModule).rootAt →
      downAndUp.rootAt (sessionIn oneModule) = (sessionIn oneModule).rootAt := fun _ => by decide
  have hm : modulePath? (sessionIn oneModule).tree (downAndUp.root (sessionIn oneModule)) =
      some "example.com/m" := by
    decide +kernel
  obtain ⟨v, s', hsurvey, -, -, hlinks⟩ :=
    survey_links_packages hs Nat.one_pos inTree_oneModule habove rfl hm
  obtain ⟨f, f', hf, hdirs, hf', hdirs'⟩ := builds_oneModule
  have hpath : importPath "example.com/m" f'.dirs ∈ ["example.com/m/x/y"] := by
    rw [hdirs']
    decide
  obtain ⟨hshows, paths, hget, hpaths⟩ :=
    hlinks f _ f' _ hf hf' (by rw [hdirs, hdirs']; decide) hpath
  rw [hdirs, hdirs'] at hshows
  rw [hdirs'] at hget
  exact ⟨hs, Nat.one_pos, inTree_oneModule, habove, rfl, hm, v, s', hsurvey, hshows, paths, hget,
    (hpaths "fmt").2 ⟨f', _, hf', rfl, List.mem_singleton_self _⟩⟩

end ImportSurvey
