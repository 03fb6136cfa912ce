import ImportSurvey.Proofs.Dependency.Root
import ImportSurvey.Proofs.Table
/-!
# Paths grouped by their roots

What is resolved from a set of paths holds, under each root, the paths that the root provides, with
everything else taken from the first of them. As paths with one root differ in nothing else, it does
not matter which comes first, and the dependencies of two sets of paths are those of both together.
-/

namespace ImportSurvey.Dependency

open Text

variable {context : Context} {paths A B : NameSet} {path root : String} {d : Dependency}

def ofPath (context : Context) (path : String) : Dependency :=
  ofProvider context (providerOf context path).kind (providerOf context path)

/-- The paths of a set that a root provides. -/
def provided (context : Context) (paths : NameSet) (root : String) : NameSet :=
  NameSet.ofList (paths.names.filter fun p => (providerOf context p).root = root)

theorem mem_provided {p : String} :
    p ∈ provided context paths root ↔ p ∈ paths ∧ (providerOf context p).root = root := by
  simp [provided]

theorem resolve_eq (context : Context) (paths : NameSet) :
    resolve context paths =
      Table.updateAll (fun p => (providerOf context p).root) (ofPath context)
        (fun p d => { d with packages := d.packages.insert p }) [] paths.names := rfl

theorem packages_ofPath (context : Context) (path : String) :
    (ofPath context path).packages = ∅ := by
  unfold ofPath ofProvider
  split
  · split <;> rfl
  · rfl

theorem kind_ofPath (context : Context) (path : String) :
    (ofPath context path).kind = (providerOf context path).kind := by
  unfold ofPath ofProvider
  split
  · rename_i hgit
    split <;> exact hgit.symm
  · rfl

private theorem foldl_insert_packages (d : Dependency) (ps : List String) :
    ps.foldl (fun v p => some { v.getD (ofPath context p) with
        packages := (v.getD (ofPath context p)).packages.insert p }) (some d) =
      some { d with packages := d.packages ∪ NameSet.ofList ps } := by
  induction ps generalizing d with
  | nil =>
    have hunion : d.packages ∪ NameSet.ofList [] = d.packages := NameSet.ext (by simp)
    rw [List.foldl_nil, hunion]
  | cons p ps ih =>
    have hunion : d.packages.insert p ∪ NameSet.ofList ps =
        d.packages ∪ NameSet.ofList (p :: ps) :=
      NameSet.ext fun a => by simp [or_assoc, or_left_comm]
    rw [List.foldl_cons, Option.getD_some, ih, hunion]

/-- Under a root stands what the first of its paths stands for, with all of them as packages. -/
theorem get?_resolve (context : Context) (paths : NameSet) (root : String) :
    (resolve context paths).get? root =
      (paths.names.filter fun p => (providerOf context p).root = root).head?.map fun first =>
        { ofPath context first with packages := provided context paths root } := by
  rw [resolve_eq, Table.get?_updateAll, provided]
  cases paths.names.filter fun p => (providerOf context p).root = root with
  | nil => rfl
  | cons first rest =>
    have hunion : NameSet.insert ∅ first ∪ NameSet.ofList rest = NameSet.ofList (first :: rest) :=
      NameSet.ext (by simp)
    simp only [List.foldl_cons, Table.get?, List.find?_nil, Option.map_none, Option.getD_none,
      foldl_insert_packages, packages_ofPath, hunion, List.head?_cons, Option.map_some]

theorem exists_of_get?_resolve (h : (resolve context paths).get? root = some d) :
    ∃ first ∈ provided context paths root,
      d = { ofPath context first with packages := provided context paths root } := by
  rw [get?_resolve, Option.map_eq_some_iff] at h
  obtain ⟨first, hfirst, rfl⟩ := h
  exact ⟨first, NameSet.mem_ofList.2 (List.mem_of_head? hfirst), rfl⟩

theorem mem_keys_resolve :
    root ∈ (resolve context paths).keys ↔ ∃ p ∈ paths, (providerOf context p).root = root := by
  rw [resolve_eq, Table.mem_keys_updateAll]
  simp [Table.keys]

def packagesUnder (t : Table String Dependency) (root : String) : NameSet :=
  ((t.get? root).map (·.packages)).getD ∅

theorem packagesUnder_resolve (context : Context) (paths : NameSet) (root : String) :
    packagesUnder (resolve context paths) root = provided context paths root := by
  rw [packagesUnder, get?_resolve, Option.map_map]
  cases hgroup : paths.names.filter fun p => (providerOf context p).root = root with
  | nil =>
    rw [provided, hgroup]
    exact NameSet.ext (by simp)
  | cons first rest => rfl

theorem mem_of_mem_packages {p : String} (h : (resolve context paths).get? root = some d)
    (hp : p ∈ d.packages) : p ∈ paths ∧ (providerOf context p).root = root := by
  obtain ⟨first, -, rfl⟩ := exists_of_get?_resolve h
  exact mem_provided.1 hp

theorem exists_of_mem (context : Context) {p : String} (hp : p ∈ paths) :
    ∃ d, (resolve context paths).get? (providerOf context p).root = some d ∧ p ∈ d.packages := by
  obtain ⟨d, hd⟩ := Table.mem_keys_iff.1 (mem_keys_resolve.2 ⟨p, hp, rfl⟩)
  refine ⟨d, hd, ?_⟩
  obtain ⟨first, -, rfl⟩ := exists_of_get?_resolve hd
  exact mem_provided.2 ⟨hp, rfl⟩

/-- The dependencies provide what they are resolved from, and nothing else. -/
theorem exists_package_iff (context : Context) (paths : NameSet) (p : String) :
    (∃ root d, (resolve context paths).get? root = some d ∧ p ∈ d.packages) ↔ p ∈ paths := by
  constructor
  · rintro ⟨root, d, hget, hp⟩
    exact (mem_of_mem_packages hget hp).1
  · intro hp
    obtain ⟨d, hd, hpackage⟩ := exists_of_mem context hp
    exact ⟨_, d, hd, hpackage⟩

theorem mem_keys_resolve_union :
    root ∈ (resolve context (A ∪ B)).keys ↔
      root ∈ (resolve context A).keys ∨ root ∈ (resolve context B).keys := by
  simp only [mem_keys_resolve, NameSet.mem_union, or_and_right, exists_or]

private theorem provided_union (context : Context) (A B : NameSet) (root : String) :
    provided context (A ∪ B) root = provided context A root ∪ provided context B root := by
  apply NameSet.ext
  intro p
  simp only [mem_provided, NameSet.mem_union, or_and_right]

/-! ## One dependency for a root -/

section OneLinePaths

variable (hmodule : context.modulePath ≠ some "C") (hnames : (context.pins.map Pin.name).Nodup)

include hmodule hnames

theorem ofPath_eq_of_root_eq {p q : String} (hp : '\n' ∉ p.toList) (hq : '\n' ∉ q.toList)
    (h : (providerOf context p).root = (providerOf context q).root) :
    ofPath context p = ofPath context q := by
  have hsame := providerOf_eq_of_root_eq hmodule hnames hp hq h
  simp only [Provider.mk.injEq, true_and] at hsame
  obtain ⟨hroot, hkind, hurl⟩ := hsame
  unfold ofPath ofProvider
  rw [hroot, hkind, hurl]

theorem eq_of_get?_resolve (hline : ∀ p ∈ paths, '\n' ∉ p.toList)
    (h : (resolve context paths).get? root = some d) {p : String} (hp : '\n' ∉ p.toList)
    (hroot : (providerOf context p).root = root) :
    d = { ofPath context p with packages := provided context paths root } := by
  obtain ⟨first, hfirst, rfl⟩ := exists_of_get?_resolve h
  obtain ⟨hmem, hfirstRoot⟩ := mem_provided.1 hfirst
  rw [ofPath_eq_of_root_eq hmodule hnames (hline first hmem) hp (hfirstRoot.trans hroot.symm)]

/-- Whatever it is resolved with, what stands under a root differs in the packages alone. -/
theorem eq_of_get?_resolve_both {others : NameSet} {part : Dependency}
    (hline : ∀ p ∈ paths, '\n' ∉ p.toList) (hothers : ∀ p ∈ others, '\n' ∉ p.toList)
    (hd : (resolve context paths).get? root = some d)
    (hpart : (resolve context others).get? root = some part) :
    { part with packages := d.packages } = d := by
  obtain ⟨first, hfirst, rfl⟩ := exists_of_get?_resolve hd
  obtain ⟨hmem, hroot⟩ := mem_provided.1 hfirst
  rw [eq_of_get?_resolve hmodule hnames hothers hpart (hline first hmem) hroot]

theorem kind_eq_of_get?_resolve (hline : ∀ p ∈ paths, '\n' ∉ p.toList) {p : String}
    (hp : p ∈ paths) (h : (resolve context paths).get? (providerOf context p).root = some d) :
    d.kind = (providerOf context p).kind := by
  rw [eq_of_get?_resolve hmodule hnames hline h (hline p hp) rfl]
  exact kind_ofPath context p

end OneLinePaths

/-- Resolving two sets of paths together joins what they resolve to one by one: the roots are those
of both, the packages under a root are those of both, and all else is what it is in either. Every
path is a package of the dependency under its own root alone, which is of the path's kind. -/
theorem resolve_union {written : List (String × Json)} (hmodule : context.modulePath ≠ some "C")
    (hkeys : (written.map Prod.fst).Nodup) (hpins : loadPins written = .ok context.pins)
    (hA : ∀ p ∈ A, '\n' ∉ p.toList) (hB : ∀ p ∈ B, '\n' ∉ p.toList) :
    (∀ root, root ∈ (resolve context (A ∪ B)).keys ↔
      root ∈ (resolve context A).keys ∨ root ∈ (resolve context B).keys) ∧
    (∀ root d, (resolve context (A ∪ B)).get? root = some d →
      d.packages = packagesUnder (resolve context A) root ∪
          packagesUnder (resolve context B) root ∧
        ∀ part, (resolve context A).get? root = some part ∨
            (resolve context B).get? root = some part →
          { part with packages := d.packages } = d) ∧
    ∀ p ∈ A ∪ B, ∃ d,
      (resolve context (A ∪ B)).get? (providerOf context p).root = some d ∧ p ∈ d.packages ∧
        d.kind = (providerOf context p).kind ∧
        ∀ root other, (resolve context (A ∪ B)).get? root = some other → p ∈ other.packages →
          root = (providerOf context p).root := by
  have hnames : (context.pins.map Pin.name).Nodup := by
    rw [names_of_loadPins hpins]
    exact hkeys
  have hAB : ∀ p ∈ A ∪ B, '\n' ∉ p.toList := by
    intro p hp
    rcases NameSet.mem_union.1 hp with hp | hp
    · exact hA p hp
    · exact hB p hp
  refine ⟨fun root => mem_keys_resolve_union, ?_, ?_⟩
  · intro root d hd
    constructor
    · obtain ⟨first, -, rfl⟩ := exists_of_get?_resolve hd
      rw [packagesUnder_resolve, packagesUnder_resolve, ← provided_union]
    · intro part hpart
      rcases hpart with hpart | hpart
      · exact eq_of_get?_resolve_both hmodule hnames hAB hA hd hpart
      · exact eq_of_get?_resolve_both hmodule hnames hAB hB hd hpart
  · intro p hp
    obtain ⟨d, hd, hpackage⟩ := exists_of_mem context hp
    refine ⟨d, hd, hpackage, kind_eq_of_get?_resolve hmodule hnames hAB hp hd, ?_⟩
    intro root other hother hmem
    exact (mem_of_mem_packages hother hmem).2.symm

/-- A pin makes two unknown paths one repository, though each set has but one of them. -/
theorem resolve_union_pinned :
    loadPins [("example.org/a", .str "1f2e")] =
        .ok [⟨"example.org/a", none, some "1f2e", none, none⟩] ∧
      ∃ d, (resolve ⟨some "me/app", [⟨"example.org/a", none, some "1f2e", none, none⟩]⟩
          (NameSet.ofList ["example.org/a/b", "fmt"] ∪
            NameSet.ofList ["example.org/a/c", "me/app/db"])).get? "example.org/a" = some d ∧
        "example.org/a/b" ∈ d.packages ∧ "example.org/a/c" ∈ d.packages ∧ d.kind = .git := by
  have hpins : loadPins [("example.org/a", .str "1f2e")] =
      .ok [⟨"example.org/a", none, some "1f2e", none, none⟩] := by
    decide +kernel
  have h := @resolve_union ⟨some "me/app", [⟨"example.org/a", none, some "1f2e", none, none⟩]⟩
    (NameSet.ofList ["example.org/a/b", "fmt"]) (NameSet.ofList ["example.org/a/c", "me/app/db"])
    [("example.org/a", .str "1f2e")] (by decide) (by decide) hpins (by simp) (by simp)
  have hroot : ∀ p ∈ ["example.org/a/b", "example.org/a/c"],
      (providerOf ⟨some "me/app", [⟨"example.org/a", none, some "1f2e", none, none⟩]⟩ p).root =
          "example.org/a" ∧
        (providerOf ⟨some "me/app", [⟨"example.org/a", none, some "1f2e", none, none⟩]⟩ p).kind =
          .git := by
    decide +kernel
  obtain ⟨d, hd, hb, hkind, -⟩ := h.2.2 "example.org/a/b" (by simp)
  obtain ⟨d', hd', hc, -, -⟩ := h.2.2 "example.org/a/c" (by simp)
  rw [(hroot "example.org/a/b" (by simp)).1] at hd
  rw [(hroot "example.org/a/c" (by simp)).1] at hd'
  rw [(hroot "example.org/a/b" (by simp)).2] at hkind
  have hsame : d' = d := Option.some.inj (hd'.symm.trans hd)
  rw [hsame] at hc
  exact ⟨hpins, d, hd, hb, hc, hkind⟩

end ImportSurvey.Dependency
