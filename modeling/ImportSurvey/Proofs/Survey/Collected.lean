import ImportSurvey.Proofs.Graph
import ImportSurvey.Proofs.Table
import ImportSurvey.Survey
/-!
# What a survey collects

The imports, the dependencies and the graph of a survey are made of the files that it found to be
part of the build, and of nothing else: imports by the key of each file's package, and from these the
rest.
-/

namespace ImportSurvey

open Workspace Dependency

variable {s s' : Session} {r : Request} {v : Survey}

/-! ## The parts of a survey -/

def Request.context (r : Request) (s : Session) : Context :=
  ⟨r.module? s, r.pins⟩

def Request.key (r : Request) (s : Session) (f : SurveyedFile) : String :=
  packageKey s.home (s.rel (r.root s).text) f.path

def Request.collect (r : Request) (s : Session) (files : List SurveyedFile) : Survey :=
  let imports := files.foldl (addImports (r.key s)) []
  ⟨(r.root s).text, r.tags, (r.context s).modulePath, files, imports,
    resolve (r.context s) (allImports imports), graphOf (r.context s) imports⟩

@[simp] theorem files_collect (r : Request) (s : Session) (files : List SurveyedFile) :
    (r.collect s files).files = files := rfl

theorem imports_collect (r : Request) (s : Session) (files : List SurveyedFile) :
    (r.collect s files).imports = files.foldl (addImports (r.key s)) [] := rfl

theorem dependencies_collect (r : Request) (s : Session) (files : List SurveyedFile) :
    (r.collect s files).dependencies =
      resolve (r.context s) (allImports (r.collect s files).imports) := rfl

theorem graph_collect (r : Request) (s : Session) (files : List SurveyedFile) :
    (r.collect s files).graph = graphOf (r.context s) (r.collect s files).imports := rfl

theorem survey_eq (s : Session) (r : Request) :
    survey s r = (s.search (r.root s).text r.tests).map fun found =>
      (r.collect s (surveyFiles r.tags found.2 found.1).1,
        (surveyFiles r.tags found.2 found.1).2) := rfl

/-- A survey is collected from the files that were read on some paths. -/
theorem exists_of_survey_eq_ok (h : survey s r = .ok (v, s')) :
    ∃ t paths, v = r.collect s (surveyFiles r.tags t paths).1 := by
  rw [survey_eq] at h
  cases hsearch : s.search (r.root s).text r.tests with
  | error e =>
    rw [hsearch] at h
    contradiction
  | ok found =>
    rw [hsearch] at h
    have hv := congrArg Prod.fst (Except.ok.inj h)
    exact ⟨_, _, hv.symm⟩

variable {context : Context} {key : SurveyedFile → String} {files : List SurveyedFile}
  {d : String} {paths : NameSet}

/-! ## Imports -/

def built (files : List SurveyedFile) : List (SurveyedFile × FileReport) :=
  files.filterMap fun f => f.fate.report?.map (f, ·)

theorem mem_built {f : SurveyedFile} {report : FileReport} :
    (f, report) ∈ built files ↔ f ∈ files ∧ f.fate = .included report := by
  rw [built, List.mem_filterMap]
  constructor
  · rintro ⟨f', hmem, hreport⟩
    obtain ⟨report', hfate, heq⟩ := Option.map_eq_some_iff.1 hreport
    obtain ⟨rfl, rfl⟩ := Prod.mk.inj heq
    refine ⟨hmem, ?_⟩
    cases hf : f'.fate with
    | included report =>
      rw [hf] at hfate
      exact congrArg Fate.included (Option.some.inj hfate)
    | excluded verdict | invalid e | unreadable =>
      rw [hf] at hfate
      contradiction
  · rintro ⟨hmem, hfate⟩
    refine ⟨f, hmem, ?_⟩
    rw [hfate]
    rfl

theorem foldl_addImports (t : Table String NameSet) :
    files.foldl (addImports key) t =
      Table.updateAll (fun x => key x.1) (fun _ => ∅)
        (fun x names => names ∪ NameSet.ofList x.2.imports) t (built files) := by
  induction files generalizing t with
  | nil => rfl
  | cons f files ih =>
    rw [List.foldl_cons, ih, addImports, built, built, List.filterMap_cons]
    cases f.fate.report? with
    | none => rfl
    | some report => rfl

private theorem nodup_keys_imports (key : SurveyedFile → String) (files : List SurveyedFile) :
    (files.foldl (addImports key) []).keys.Nodup := by
  rw [foldl_addImports]
  apply Table.nodup_keys_updateAll
  exact List.nodup_nil

theorem nodup_keys_collect (r : Request) (s : Session) (files : List SurveyedFile) :
    (r.collect s files).imports.keys.Nodup :=
  nodup_keys_imports (r.key s) files

theorem mem_keys_imports :
    d ∈ (files.foldl (addImports key) []).keys ↔ ∃ x ∈ built files, key x.1 = d := by
  rw [foldl_addImports, Table.mem_keys_updateAll]
  simp

private theorem mem_of_foldl_union {xs : List (SurveyedFile × FileReport)} {names : Option NameSet}
    (h : xs.foldl (fun v x => some (v.getD ∅ ∪ NameSet.ofList x.2.imports)) names = some paths)
    (p : String) : p ∈ paths ↔ p ∈ names.getD ∅ ∨ ∃ x ∈ xs, p ∈ x.2.imports := by
  induction xs generalizing names with
  | nil =>
    rw [List.foldl_nil] at h
    simp [h]
  | cons x xs ih =>
    rw [ih h, Option.getD_some, NameSet.mem_union, NameSet.mem_ofList, List.exists_mem_cons_iff,
      or_assoc]

/-- A package imports what its built files import. -/
theorem mem_imports (h : (files.foldl (addImports key) []).get? d = some paths) (p : String) :
    p ∈ paths ↔ ∃ x ∈ built files, key x.1 = d ∧ p ∈ x.2.imports := by
  rw [foldl_addImports, Table.get?_updateAll] at h
  rw [mem_of_foldl_union h]
  simp [Table.get?, and_assoc]

theorem mem_allImports {imports : Table String NameSet} (hkeys : imports.keys.Nodup) (p : String) :
    p ∈ allImports imports ↔ ∃ d paths, imports.get? d = some paths ∧ p ∈ paths := by
  rw [allImports, NameSet.mem_ofList, List.mem_flatMap]
  constructor
  · rintro ⟨⟨d, paths⟩, hmem, hp⟩
    exact ⟨d, paths, (Table.get?_eq_some_iff hkeys).2 hmem, hp⟩
  · rintro ⟨d, paths, hget, hp⟩
    exact ⟨(d, paths), Table.mem_of_get? hget, hp⟩

/-! ## Edges -/

/-- The edges that imports make: from a package to the node of each path that it imports, unless
that is the package's own. -/
def Links (context : Context) (imports : Table String NameSet) (importer node : String) : Prop :=
  node ≠ importer ∧
    ∃ paths, imports.get? importer = some paths ∧ ∃ p ∈ paths, nodeOf context p = node

theorem exists_edge_iff {imports : Table String NameSet} (hkeys : imports.keys.Nodup)
    {importer node : String} :
    (∃ targets, (importer, targets) ∈ imports.map (fun e =>
        (e.1, NameSet.ofList (e.2.names.map (nodeOf context)))) ∧ node ∈ targets) ↔
      ∃ paths, imports.get? importer = some paths ∧ ∃ p ∈ paths, nodeOf context p = node := by
  constructor
  · rintro ⟨targets, hedge, hmem⟩
    obtain ⟨⟨importer', paths⟩, hentry, heq⟩ := List.mem_map.1 hedge
    obtain ⟨rfl, rfl⟩ := Prod.mk.inj heq
    obtain ⟨p, hp, hnode⟩ := List.mem_map.1 (NameSet.mem_ofList.1 hmem)
    exact ⟨paths, (Table.get?_eq_some_iff hkeys).2 hentry, p, hp, hnode⟩
  · rintro ⟨paths, hget, p, hp, hnode⟩
    refine ⟨_, List.mem_map.2 ⟨(importer, paths), Table.mem_of_get? hget, rfl⟩, ?_⟩
    exact NameSet.mem_ofList.2 (List.mem_map.2 ⟨p, hp, hnode⟩)

theorem mem_importsOf_graphOf {imports : Table String NameSet} (hkeys : imports.keys.Nodup)
    {importer node : String} :
    node ∈ Graph.importsOf (graphOf context imports) importer ↔
      Links context imports importer node := by
  rw [graphOf, Graph.mem_importsOf_ofImports, exists_edge_iff hkeys, Links]

theorem mem_importersOf_graphOf {imports : Table String NameSet} (hkeys : imports.keys.Nodup)
    {importer node : String} :
    importer ∈ Graph.importersOf (graphOf context imports) node ↔
      Links context imports importer node := by
  rw [graphOf, Graph.mem_importersOf_ofImports, exists_edge_iff hkeys, Links]

theorem mem_keys_graphOf {imports : Table String NameSet} (hkeys : imports.keys.Nodup)
    {node : String} :
    node ∈ (graphOf context imports).keys ↔
      node ∈ imports.keys ∨ ∃ importer, Links context imports importer node := by
  have hpackages : Table.keys (imports.map fun e =>
      (e.1, NameSet.ofList (e.2.names.map (nodeOf context)))) = imports.keys := by
    simp [Table.keys]
  rw [graphOf, Graph.mem_keys_ofImports, hpackages]
  apply or_congr_right
  constructor
  · rintro ⟨⟨importer, targets⟩, hedge, hmem, hne⟩
    exact ⟨importer, hne, (exists_edge_iff hkeys).1 ⟨targets, hedge, hmem⟩⟩
  · rintro ⟨importer, hne, hpath⟩
    obtain ⟨targets, hedge, hmem⟩ := (exists_edge_iff hkeys).2 hpath
    exact ⟨(importer, targets), hedge, hmem, hne⟩

end ImportSurvey
