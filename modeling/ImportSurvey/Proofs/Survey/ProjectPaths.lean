import ImportSurvey.Proofs.Survey.PackageGraph
/-!
# Which import paths are the project's own

The graph and the table of dependencies tell the project's paths from others by tests of their own. The
graph cuts the module path and a slash off the front. The table compares elements, behind the rules for
the pseudo package and for relative paths, and asks for pins afterwards. Where these rules say nothing
of the module path itself, both select the same paths.
-/

namespace ImportSurvey

open Dependency Text

variable {m path node : String} {context : Context}

/-! ## Nodes -/

theorem packageNode?_eq_some_iff (hm : m ≠ "") :
    packageNode? (some m) path = some node ↔
      path = m ∧ node = "." ∨ path = m ++ "/" ++ node := by
  have hlonger : ∀ rest : String, m ++ "/" ++ rest ≠ m := by
    intro rest heq
    have hlength := congrArg (fun s : String => s.toList.length) heq
    simp at hlength
  simp only [packageNode?, if_neg hm]
  by_cases hself : path = m
  · subst hself
    rw [if_pos rfl, Option.some.injEq, eq_comm, or_iff_left (hlonger node).symm]
    exact (and_iff_right rfl).symm
  · rw [if_neg hself, Option.map_eq_some_iff]
    simp only [hself, false_and, false_or, isPrefixOf?_eq_some]
    constructor
    · rintro ⟨rest, hrest, rfl⟩
      apply String.toList_injective
      rw [hrest, String.toList_append (s := m ++ "/"), String.toList_ofList]
    · rintro rfl
      exact ⟨node.toList, String.toList_append, String.ofList_toList⟩

theorem isSome_packageNode?_iff (hm : m ≠ "") :
    (packageNode? (some m) path).isSome = true ↔ covers m path = true := by
  rw [Option.isSome_iff_exists, covers_iff_eq_or]
  simp only [packageNode?_eq_some_iff hm, exists_or, exists_and_left, exists_eq, and_true]

/-! ## Providers -/

/-- A module path that is not read as something else: it is not empty, not the pseudo package, and not
relative. -/
structure IsModulePath (m : String) : Prop where
  not_empty : m ≠ ""
  not_pseudo : m ≠ "C"
  not_here : m ≠ "."
  not_up : m ≠ ".."
  not_below_here : ¬ "./".toList <+: m.toList
  not_below_up : ¬ "../".toList <+: m.toList

theorem IsModulePath.not_isRelative (h : IsModulePath m) : isRelative m = false := by
  have hbelow : ∀ dots rest : String, m = dots ++ "/" ++ rest → (dots ++ "/").toList <+: m.toList := by
    rintro dots rest rfl
    exact ⟨rest.toList, String.toList_append.symm⟩
  rw [Bool.eq_false_iff, Ne, isRelative, Bool.or_eq_true, covers_iff_eq_or, covers_iff_eq_or]
  rintro ((hhere | ⟨rest, hrest⟩) | (hup | ⟨rest, hrest⟩))
  · exact h.not_here hhere
  · exact h.not_below_here (hbelow "." rest hrest)
  · exact h.not_up hup
  · exact h.not_below_up (hbelow ".." rest hrest)

namespace Dependency

theorem isRelative_of_covers_relative {root : String} (h : isRelative path = true)
    (hcovers : covers root path = true) : isRelative root = true := by
  obtain ⟨rest, hrest⟩ := covers_iff.1 hcovers
  rw [isRelative_iff] at h ⊢
  cases hroot : elements root with
  | nil => exact absurd hroot (elements_ne_nil root)
  | cons first more =>
    rw [← hrest, hroot] at h
    exact h

theorem Behind.isExternal {host : String} {es : List String}
    (h : Behind context.modulePath path host es) :
    (providerOf context path).kind.isExternal = true := by
  rcases hosted_unknown_or_git path host es with hunknown | ⟨up, url, hgit⟩
  · rw [providerOf_of_unknown (h.ofPath_eq.trans hunknown)]
    cases pinFor? context.pins path <;> rfl
  · rw [providerOf_of_known (h.ofPath_eq.trans hgit) (by simp [git])]
    rfl

end Dependency

/-- The paths that the project provides under its module path are those that the module path covers. -/
theorem provides_iff_covers (h : IsModulePath m) (pins : List Pin) (path : String) :
    (providerOf ⟨some m, pins⟩ path).kind = .project ∧ (providerOf ⟨some m, pins⟩ path).root = m ↔
      covers m path = true := by
  cases origin (some m) path with
  | pseudo hpath heq =>
    rw [providerOf_of_known heq (by simp)]
    subst hpath
    have hnot : ¬ covers m "C" = true := fun hcovers => h.not_pseudo (eq_pseudo_of_covers hcovers)
    simp [hnot]
  | relative hrelative heq =>
    rw [providerOf_of_known heq (by simp)]
    have hnot : ¬ covers m path = true := by
      intro hcovers
      have hm := isRelative_of_covers_relative hrelative hcovers
      exact absurd (hm.symm.trans h.not_isRelative) (by decide)
    have hother : path ≠ m := by
      rintro rfl
      exact hnot (covers_self path)
    simp [hnot, hother]
  | own m' hm' hne hcovers hrelative heq =>
    obtain rfl := Option.some.inj hm'
    rw [providerOf_of_known heq (by simp)]
    simp [hcovers]
  | standard hrelative hown heq =>
    rw [providerOf_of_known heq (by simp), hown m rfl h.not_empty]
    simp
  | behind host es hbehind =>
    have hexternal : (providerOf ⟨some m, pins⟩ path).kind.isExternal = true :=
      Behind.isExternal hbehind
    rw [hbehind.not_own m rfl h.not_empty]
    constructor
    · rintro ⟨hkind, -⟩
      rw [hkind] at hexternal
      cases hexternal
    · intro hfalse
      cases hfalse

/-- An import path has a node of the project exactly if it is provided by the project with the module
path as its root, whatever is pinned; and the node is a single dot for the module path itself and, for
every other path, what follows the module path and a slash. -/
theorem packageNode?_iff_provided (h : IsModulePath m) (pins : List Pin) (path : String) :
    ((packageNode? (some m) path).isSome = true ↔
      (providerOf ⟨some m, pins⟩ path).kind = .project ∧
        (providerOf ⟨some m, pins⟩ path).root = m) ∧
    ∀ node, packageNode? (some m) path = some node ↔
      path = m ∧ node = "." ∨ path = m ++ "/" ++ node := by
  constructor
  · rw [isSome_packageNode?_iff h.not_empty, provides_iff_covers h]
  · exact fun node => packageNode?_eq_some_iff h.not_empty

/-- A pin on the module's own path does not take it from the project, and a sibling whose name begins
with the module's is another repository's. -/
theorem packageNode?_iff_provided_pinned :
    IsModulePath "example.org/a" ∧
      packageNode? (some "example.org/a") "example.org/a/b" = some "b" ∧
      (providerOf ⟨some "example.org/a", nestedContext.pins⟩ "example.org/a/b").root =
        "example.org/a" ∧
      packageNode? (some "example.org/a") "example.org/ab" = none ∧
      (providerOf ⟨some "example.org/a", nestedContext.pins⟩ "example.org/ab").root =
        "example.org" := by
  have h : IsModulePath "example.org/a" := by constructor <;> decide
  obtain ⟨hown, hnode⟩ := packageNode?_iff_provided h nestedContext.pins "example.org/a/b"
  have hb := (hnode "b").2 (Or.inr (by decide))
  have hsibling : providerOf ⟨some "example.org/a", nestedContext.pins⟩ "example.org/ab" =
      ⟨"example.org/ab", "example.org", .git, some "https://example.org"⟩ := by
    decide +kernel
  obtain ⟨hother, -⟩ := packageNode?_iff_provided h nestedContext.pins "example.org/ab"
  refine ⟨h, hb, (hown.1 (by rw [hb]; rfl)).2, ?_, by rw [hsibling]⟩
  rw [← Option.not_isSome_iff_eq_none, hother, hsibling]
  decide

end ImportSurvey
