import ImportSurvey.Proofs.Dependency.Grouping
import ImportSurvey.Proofs.Survey.Reading
import Mathlib.Data.List.Permutation
/-!
# Dependencies in the package graph

Packages of the project and roots of dependencies are nodes of one graph, by their names alone. So a
root is linked to the packages that import its paths and, where a package of the project has the
root's name, to those that import that package, while a package of that name is not linked to the
root. Where no names meet, the graph tells the same of a dependency as the table of dependencies.
-/

namespace ImportSurvey

open Workspace Dependency Text

variable {s s' : Session} {r : Request} {v : Survey} {context : Context}
  {modulePath : Option String} {p q node root : String} {d : Dependency}

/-- In the graph of a survey a name is a node, imported by exactly the names that `importers` says,
which are nodes that import it. -/
def Survey.ShowsImporters (v : Survey) (name : String) (importers : String → Prop) : Prop :=
  ∃ node, v.graph.get? name = some node ∧
    ∀ dir, (dir ∈ node.importers ↔ importers dir) ∧
      ((∃ other, v.graph.get? dir = some other ∧ name ∈ other.imports) ↔ importers dir)

theorem Survey.ShowsImporters.congr {name : String} {P Q : String → Prop}
    (h : v.ShowsImporters name P) (hiff : ∀ dir, P dir ↔ Q dir) : v.ShowsImporters name Q := by
  obtain ⟨node, hget, hdir⟩ := h
  exact ⟨node, hget, fun dir => ⟨(hdir dir).1.trans (hiff dir), (hdir dir).2.trans (hiff dir)⟩⟩

theorem Survey.ShowsImporters.iff {name : String} {P Q : String → Prop}
    (h : v.ShowsImporters name P) (h' : v.ShowsImporters name Q) (dir : String) :
    P dir ↔ Q dir := by
  obtain ⟨node, hget, hdir⟩ := h
  obtain ⟨node', hget', hdir'⟩ := h'
  obtain rfl := Option.some.inj (hget.symm.trans hget')
  exact (hdir dir).1.symm.trans (hdir' dir).1

/-- The graph of a survey links a dependency to the packages that import one of its paths. -/
def Survey.Agrees (v : Survey) (name : String) (d : Dependency) : Prop :=
  v.ShowsImporters name fun dir =>
    ∃ paths, v.imports.get? dir = some paths ∧ ∃ p ∈ paths, p ∈ d.packages

/-! ## Paths of the project -/

private theorem covers_of_packageNode? (h : packageNode? modulePath p = some node) :
    ∃ m, modulePath = some m ∧ m ≠ "" ∧ covers m p = true := by
  unfold packageNode? at h
  split at h
  · contradiction
  · rename_i m
    refine ⟨m, rfl, ?_⟩
    split at h
    · contradiction
    · rename_i hne
      refine ⟨hne, ?_⟩
      rw [covers_iff_eq_or]
      split at h
      · rename_i hself
        exact Or.inl hself
      · obtain ⟨rest, hrest, -⟩ := Option.map_eq_some_iff.1 h
        right
        refine ⟨String.ofList rest, String.toList_injective ?_⟩
        rw [isPrefixOf?_eq_some.1 hrest]
        simp

/-- A path that shares its root with one that is not the project's names no package of the project,
unless the root is the project's own. -/
theorem packageNode?_eq_none (hroot : (providerOf context p).root = root)
    (hq : (providerOf context q).root = root) (hkind : (providerOf context q).kind ≠ .project)
    (hmodule : root ≠ "" → context.modulePath ≠ some root) :
    packageNode? context.modulePath p = none := by
  rw [Option.eq_none_iff_forall_ne_some]
  intro node hnode
  obtain ⟨m, hm, hne, hcovers⟩ := covers_of_packageNode? hnode
  have hother : m ≠ root := by
    rintro rfl
    exact hmodule hne hm
  cases origin context.modulePath p with
  | pseudo hpath heq =>
    rw [providerOf_of_known heq (by simp)] at hroot
    subst hpath
    exact hother ((eq_pseudo_of_covers hcovers).trans hroot)
  | relative hrelative heq =>
    rw [providerOf_of_known heq (by simp)] at hroot
    apply hkind
    apply kind_eq_project_of_isRelative_root
    rw [hq, ← hroot]
    exact hrelative
  | own m' hm' _ _ _ heq =>
    rw [providerOf_of_known heq (by simp)] at hroot
    exact hother (Option.some.inj (hm.symm.trans hm') ▸ hroot)
  | standard _ hown _ => exact absurd (hcovers.symm.trans (hown m hm hne)) (by decide)
  | behind host es h => exact absurd (hcovers.symm.trans (h.not_own m hm hne)) (by decide)

/-- The paths with the node of such a root are those that it provides and those of the package of
the project that has its name. -/
theorem nodeOf_eq_iff (hq : (providerOf context q).root = root)
    (hkind : (providerOf context q).kind ≠ .project)
    (hmodule : root ≠ "" → context.modulePath ≠ some root) :
    nodeOf context p = root ↔
      (providerOf context p).root = root ∨ packageNode? context.modulePath p = some root := by
  rw [nodeOf]
  cases hnode : packageNode? context.modulePath p with
  | none => simp
  | some node =>
    have hnot : (providerOf context p).root ≠ root := by
      intro hroot
      have hnone := packageNode?_eq_none hroot hq hkind hmodule
      exact absurd (hnone.symm.trans hnode) (by simp)
    simp [hnot]

/-! ## Dependencies -/

theorem showsImporters_of_links {imports : Table String NameSet} (hkeys : imports.keys.Nodup)
    (hgraph : v.graph = graphOf context imports) (hnode : root ∈ v.graph.keys)
    {importers : String → Prop} (h : ∀ dir, Links context imports dir root ↔ importers dir) :
    v.ShowsImporters root importers := by
  obtain ⟨node, hget⟩ := Table.mem_keys_iff.1 hnode
  refine ⟨node, hget, fun dir => ⟨?_, ?_⟩⟩
  · rw [← Graph.importersOf_eq hget, hgraph, mem_importersOf_graphOf hkeys, h]
  · rw [← Graph.mem_importsOf_iff, hgraph, mem_importsOf_graphOf hkeys, h]

theorem shows_dependency (h : survey s r = .ok (v, s'))
    (hd : v.dependencies.get? root = some d) (hkind : d.kind ≠ .project)
    (hmodule : root ≠ "" → v.modulePath ≠ some root) :
    v.ShowsImporters root fun dir => dir ≠ root ∧
      ∃ paths, v.imports.get? dir = some paths ∧
        ∃ p ∈ paths, p ∈ d.packages ∨ packageNode? v.modulePath p = some root := by
  obtain ⟨t, paths, rfl⟩ := exists_of_survey_eq_ok h
  generalize (surveyFiles r.tags t paths).1 = files at h hd ⊢
  have hkeys := nodup_keys_collect r s files
  obtain ⟨first, hfirst, rfl⟩ := exists_of_get?_resolve hd
  obtain ⟨hmem, hroot⟩ := mem_provided.1 hfirst
  have hforeign : (providerOf (r.context s) first).kind ≠ .project := by
    rw [← kind_ofPath]
    exact hkind
  have hnodeOf : ∀ p, nodeOf (r.context s) p = root ↔ (providerOf (r.context s) p).root = root ∨
      packageNode? (r.context s).modulePath p = some root :=
    fun p => nodeOf_eq_iff hroot hforeign hmodule
  apply showsImporters_of_links hkeys rfl
  · obtain ⟨dir, paths, hget, hpath⟩ := (mem_allImports hkeys first).1 hmem
    apply (mem_keys_graphOf hkeys).2
    by_cases hself : root = dir
    · exact Or.inl (Table.mem_keys_iff.2 ⟨paths, hself ▸ hget⟩)
    · exact Or.inr ⟨dir, hself, paths, hget, first, hpath, (hnodeOf first).2 (Or.inl hroot)⟩
  · intro dir
    have hpackages : ∀ paths, (r.collect s files).imports.get? dir = some paths → ∀ p ∈ paths,
        (p ∈ provided (r.context s) (allImports (r.collect s files).imports) root ↔
          (providerOf (r.context s) p).root = root) := by
      intro paths hget p hp
      rw [mem_provided]
      exact and_iff_right ((mem_allImports hkeys p).2 ⟨dir, paths, hget, hp⟩)
    constructor
    · rintro ⟨hne, paths, hget, p, hp, hnode⟩
      refine ⟨hne.symm, paths, hget, p, hp, ?_⟩
      exact ((hnodeOf p).1 hnode).imp_left (hpackages paths hget p hp).2
    · rintro ⟨hne, paths, hget, p, hp, hpackage⟩
      refine ⟨hne.symm, paths, hget, p, hp, (hnodeOf p).2 ?_⟩
      exact hpackage.imp_left (hpackages paths hget p hp).1

/-! ## Projects in which names meet -/

private theorem exists_of_toOption_map {ε α β : Type} {x : Except ε α} {f : α → β} {b : β}
    (h : x.toOption.map f = some b) : ∃ a, x = .ok a ∧ f a = b := by
  cases x with
  | error e => contradiction
  | ok a => exact ⟨a, rfl, Option.some.inj h⟩

def importsItsName : Directory :=
  .sub "fmt" (sourceFile "f.go" "package fmt\nimport \"fmt\"\n" .empty) .empty

def twoOfOneName : Directory :=
  sourceFile "a.go" "package a\nimport \"m/fmt\"\n"
    (.sub "x" (sourceFile "x.go" "package x\nimport \"fmt\"\n" .empty) .empty)

def importsPseudo : Directory :=
  sourceFile "a.go" "package a\nimport \"C\"\n" .empty

theorem exists_survey_importsItsName :
    ∃ v s', survey (sessionIn importsItsName) {} = .ok (v, s') ∧ v.modulePath = none ∧
      v.imports.get? "fmt" = some (.ofList ["fmt"]) ∧
      v.dependencies.get? "fmt" =
        some { name := "fmt", kind := .standard, packages := .ofList ["fmt"] } := by
  have hview : (survey (sessionIn importsItsName) {}).toOption.map (fun o =>
      (o.1.modulePath, o.1.imports.get? "fmt", o.1.dependencies.get? "fmt")) =
      some (none, some (.ofList ["fmt"]),
        some { name := "fmt", kind := .standard, packages := .ofList ["fmt"] }) := by
    decide +kernel
  obtain ⟨⟨v, s'⟩, hsurvey, hparts⟩ := exists_of_toOption_map hview
  obtain ⟨hmodule, himports, hd⟩ := by simpa using hparts
  exact ⟨v, s', hsurvey, hmodule, himports, hd⟩

theorem exists_survey_twoOfOneName :
    ∃ v s', survey (sessionIn twoOfOneName) { modulePath := some "m" } = .ok (v, s') ∧
      v.modulePath = some "m" ∧ v.imports = [(".", .ofList ["m/fmt"]), ("x", .ofList ["fmt"])] ∧
      v.dependencies.get? "fmt" =
        some { name := "fmt", kind := .standard, packages := .ofList ["fmt"] } := by
  obtain ⟨s', hsurvey, -⟩ := exists_survey_eq (upToDate_sessionIn twoOfOneName) Nat.one_pos
    { modulePath := some "m" }
  have hfound : (sessionIn twoOfOneName).searchNow "/p" false = ["a.go", "x/x.go"] := by cbv
  have hfiles : Request.filesNow { modulePath := some "m" } (sessionIn twoOfOneName) =
      [⟨"a.go", some "package a\nimport \"m/fmt\"\n",
          .included ⟨.included, ["m/fmt"], some "a"⟩⟩,
        ⟨"x/x.go", some "package x\nimport \"fmt\"\n",
          .included ⟨.included, ["fmt"], some "x"⟩⟩] := by
    have hroot : (Request.root { modulePath := some "m" } (sessionIn twoOfOneName)).text = "/p" := by
      decide +kernel
    rw [Request.filesNow, Request.found, hroot, hfound]
    decide +kernel
  rw [hfiles] at hsurvey
  generalize hv : Request.collect _ _ _ = v at hsurvey
  have hmodule : v.modulePath = some "m" := by
    rw [← hv]
    rfl
  have himports : v.imports = [(".", .ofList ["m/fmt"]), ("x", .ofList ["fmt"])] := by
    rw [← hv]
    decide +kernel
  have hall : allImports v.imports = ⟨["fmt", "m/fmt"], by decide⟩ := by
    rw [himports]
    cbv
  have hdependencies : v.dependencies = resolve ⟨v.modulePath, []⟩ (allImports v.imports) := by
    rw [← hv]
    rfl
  refine ⟨v, s', hsurvey, hmodule, himports, ?_⟩
  rw [hdependencies, hmodule, hall]
  decide +kernel

/-! ## What the graph shows -/

/-- A dependency from outside the project is a node. It is imported by the packages that import one
of its paths or a package of the project with its name, except by the package of its own name; so it
is imported by those that import one of its paths, where its name is that of no package. -/
theorem graph_shows_dependency (h : survey s r = .ok (v, s'))
    (hd : v.dependencies.get? root = some d) (hkind : d.kind ≠ .project)
    (hmodule : root ≠ "" → v.modulePath ≠ some root) :
    (v.ShowsImporters root fun dir => dir ≠ root ∧
      ∃ paths, v.imports.get? dir = some paths ∧
        ∃ p ∈ paths, p ∈ d.packages ∨ packageNode? v.modulePath p = some root) ∧
    (v.imports.get? root = none →
      (∀ dir paths, v.imports.get? dir = some paths →
        ∀ p ∈ paths, packageNode? v.modulePath p ≠ some root) →
      v.Agrees root d) := by
  have hshows := shows_dependency h hd hkind hmodule
  refine ⟨hshows, fun hpackage hnode => hshows.congr fun dir => ?_⟩
  constructor
  · rintro ⟨-, paths, hget, p, hp, hpath⟩
    exact ⟨paths, hget, p, hp, hpath.resolve_right (hnode dir paths hget p hp)⟩
  · rintro ⟨paths, hget, p, hp, hpath⟩
    refine ⟨?_, paths, hget, p, hp, Or.inl hpath⟩
    rintro rfl
    exact absurd (hpackage.symm.trans hget) (by simp)

/-- A library package is imported where it is, and by the package that imports its namesake. -/
theorem graph_shows_dependency_namesake :
    ∃ v s' d node, survey (sessionIn twoOfOneName) { modulePath := some "m" } = .ok (v, s') ∧
      v.dependencies.get? "fmt" = some d ∧ d.kind ≠ .project ∧
      ("fmt" ≠ "" → v.modulePath ≠ some "fmt") ∧
      v.graph.get? "fmt" = some node ∧ "x" ∈ node.importers ∧ "." ∈ node.importers := by
  obtain ⟨v, s', hsurvey, hmodule, himports, hd⟩ := exists_survey_twoOfOneName
  have hother : "fmt" ≠ "" → v.modulePath ≠ some "fmt" := by simp [hmodule]
  obtain ⟨⟨node, hnode, hdir⟩, -⟩ := graph_shows_dependency hsurvey hd (by decide) hother
  refine ⟨v, s', _, node, hsurvey, hd, by decide, hother, hnode, (hdir "x").1.2 ?_, (hdir ".").1.2 ?_⟩
  · exact ⟨by decide, .ofList ["fmt"], by rw [himports]; rfl, "fmt", by simp, Or.inl (by simp)⟩
  · refine ⟨by decide, .ofList ["m/fmt"], by rw [himports]; rfl, "m/fmt", by simp, Or.inr ?_⟩
    rw [hmodule]
    decide

theorem not_agrees_importsItsName :
    ∃ v s' d, survey (sessionIn importsItsName) {} = .ok (v, s') ∧
      v.dependencies.get? "fmt" = some d ∧ d.kind = .standard ∧ ¬ v.Agrees "fmt" d := by
  obtain ⟨v, s', hsurvey, hmodule, himports, hd⟩ := exists_survey_importsItsName
  refine ⟨v, s', _, hsurvey, hd, rfl, fun hagrees => ?_⟩
  have hshows := shows_dependency hsurvey hd (by decide) (by simp [hmodule])
  have hself := (hshows.iff hagrees "fmt").2 ⟨_, himports, "fmt", by simp, by simp⟩
  exact hself.1 rfl

theorem not_agrees_twoOfOneName :
    ∃ v s' d, survey (sessionIn twoOfOneName) { modulePath := some "m" } = .ok (v, s') ∧
      v.dependencies.get? "fmt" = some d ∧ d.kind = .standard ∧ ¬ v.Agrees "fmt" d := by
  obtain ⟨v, s', hsurvey, hmodule, himports, hd⟩ := exists_survey_twoOfOneName
  refine ⟨v, s', _, hsurvey, hd, rfl, fun hagrees => ?_⟩
  have hshows := shows_dependency hsurvey hd (by decide) (by simp [hmodule])
  have hpackage : packageNode? v.modulePath "m/fmt" = some "fmt" := by
    rw [hmodule]
    decide
  have hget : v.imports.get? "." = some (.ofList ["m/fmt"]) := by
    rw [himports]
    rfl
  obtain ⟨paths, hpaths, p, hp, hprovided⟩ := (hshows.iff hagrees ".").1
    ⟨by decide, _, hget, "m/fmt", by simp, Or.inr hpackage⟩
  obtain rfl := Option.some.inj (hget.symm.trans hpaths)
  simp only [NameSet.mem_ofList, List.mem_singleton] at hp hprovided
  exact absurd (hp.symm.trans hprovided) (by decide)

theorem not_agrees_importsPseudo :
    ∃ v s' d, survey (sessionIn importsPseudo) { modulePath := some "C" } = .ok (v, s') ∧
      v.dependencies.get? "C" = some d ∧ d.kind = .pseudo ∧ ¬ v.Agrees "C" d := by
  have hview : (survey (sessionIn importsPseudo) { modulePath := some "C" }).toOption.map (fun o =>
      (o.1.dependencies.get? "C", o.1.graph.get? "C")) =
      some (some { name := "C", kind := .pseudo, packages := .ofList ["C"] }, none) := by
    decide +kernel
  obtain ⟨⟨v, s'⟩, hsurvey, hparts⟩ := exists_of_toOption_map hview
  obtain ⟨hd, hgraph⟩ := by simpa using hparts
  refine ⟨v, s', _, hsurvey, hd, rfl, ?_⟩
  rintro ⟨node, hnode, -⟩
  exact absurd (hgraph.symm.trans hnode) (by simp)

/-- Where names meet the graph does not tell what the table of dependencies does. -/
theorem graph_disagrees :
    (∃ v s' d, survey (sessionIn importsItsName) {} = .ok (v, s') ∧
      v.dependencies.get? "fmt" = some d ∧ d.kind = .standard ∧ ¬ v.Agrees "fmt" d) ∧
    (∃ v s' d, survey (sessionIn twoOfOneName) { modulePath := some "m" } = .ok (v, s') ∧
      v.dependencies.get? "fmt" = some d ∧ d.kind = .standard ∧ ¬ v.Agrees "fmt" d) ∧
    ∃ v s' d, survey (sessionIn importsPseudo) { modulePath := some "C" } = .ok (v, s') ∧
      v.dependencies.get? "C" = some d ∧ d.kind = .pseudo ∧ ¬ v.Agrees "C" d :=
  ⟨not_agrees_importsItsName, not_agrees_twoOfOneName, not_agrees_importsPseudo⟩

end ImportSurvey
