import ImportSurvey.Dependency.Provider
import ImportSurvey.Proofs.Text.Elements
import Mathlib.Data.List.Basic
/-!
# Where a repository's root ends

Behind a host with a dot, some first elements of a path tell the repository that it belongs to. What
tells it is the same for every path that goes on from there, so the root of a repository, read as a
path of its own, belongs to that repository. Line feeds are left out of account: one at the end of a
path is not part of a root.
-/

namespace ImportSurvey.Dependency

open Text

variable {path host url : String} {es up more : List String} {provider : Provider}

def OneLine (es : List String) : Prop :=
  ∀ e ∈ es, '\n' ∉ e.toList

theorem OneLine.of_prefix (h : OneLine es) (hpre : up <+: es) : OneLine up :=
  fun e he => h e (hpre.subset he)

theorem dropFinalNewline_eq_self {element : String} (h : '\n' ∉ element.toList) (isLast : Bool) :
    dropFinalNewline isLast element = element := by
  unfold dropFinalNewline
  have hlast : (element.toList.getLast? == some '\n') = false := by
    rw [beq_eq_false_iff_ne]
    exact fun hlast => h (List.mem_of_getLast? hlast)
  simp only [hlast, Bool.and_false, Bool.false_eq_true, if_false]

/-! ## Hosts with a form of their own -/

/-- The elements behind a host that tell a repository by a form of the host's own, and where it is
fetched from. -/
inductive SpecialRoot : String → List String → String → Prop
  | extended {name : String} (hname : isRun isNameChar name.toList = true) :
      SpecialRoot "golang.org" ["x", name] ("https://go.googlesource.com/" ++ name)
  | owned {user name : String} (huser : isRun isUserChar user.toList = true)
      (hname : isVersioned name = true) :
      SpecialRoot "gopkg.in" [user, name] ("https://" ++ joinElements ["gopkg.in", user, name])
  | plain {name : String} (hname : isVersioned name = true) :
      SpecialRoot "gopkg.in" [name] ("https://" ++ joinElements ["gopkg.in", name])

def special? (path host : String) (es : List String) : Option Provider :=
  if host == "golang.org" then extendedLibrary? path es
  else if host == "gopkg.in" then versioned? path es
  else none

private theorem dot_mem_of_isVersioned {name : String} (h : isVersioned name = true) :
    '.' ∈ name.toList := by
  unfold isVersioned at h
  rw [Bool.and_eq_true] at h
  have hmatch := h.2
  split at hmatch
  · rename_i rest hdrop
    have hmem : '.' ∈ name.toList.reverse.dropWhile isDecimal := by
      rw [hdrop]
      simp
    exact List.mem_reverse.1 ((List.dropWhile_suffix _).subset hmem)
  · contradiction

private theorem isUserChar_dot : isUserChar '.' = false := by
  decide

private theorem not_isRun_of_dot_mem {element : String} (h : '.' ∈ element.toList) :
    isRun isUserChar element.toList = false := by
  rw [isRun, Bool.and_eq_false_iff]
  right
  rw [List.all_eq_false]
  exact ⟨'.', h, by rw [isUserChar_dot]; decide⟩

theorem exists_of_extendedLibrary? (hline : OneLine es)
    (h : extendedLibrary? path es = some provider) :
    ∃ up url, SpecialRoot "golang.org" up url ∧ up <+: es ∧
      provider = git path (joinElements ("golang.org" :: up)) url := by
  unfold extendedLibrary? at h
  split at h
  · rename_i name rest
    rw [dropFinalNewline_eq_self (hline name (by simp))] at h
    by_cases hname : isRun isNameChar name.toList = true
    · simp only [hname, if_true, Option.some.injEq] at h
      exact ⟨_, _, .extended hname, ⟨rest, rfl⟩, h.symm⟩
    · simp [hname] at h
  · contradiction

theorem exists_of_versioned? (hline : OneLine es) (h : versioned? path es = some provider) :
    ∃ up url, SpecialRoot "gopkg.in" up url ∧ up <+: es ∧
      provider = git path (joinElements ("gopkg.in" :: up)) url := by
  rcases Option.or_eq_some_iff.1 h with howned | ⟨-, hplain⟩
  · split at howned
    · rename_i user name rest
      rw [dropFinalNewline_eq_self (hline name (by simp))] at howned
      by_cases hboth : (isRun isUserChar user.toList && isVersioned name) = true
      · obtain ⟨huser, hname⟩ := Bool.and_eq_true_iff.1 hboth
        simp only [hboth, if_true, Option.some.injEq] at howned
        exact ⟨_, _, .owned huser hname, ⟨rest, rfl⟩, howned.symm⟩
      · simp [hboth] at howned
    · contradiction
  · split at hplain
    · rename_i name rest
      rw [dropFinalNewline_eq_self (hline name (by simp))] at hplain
      by_cases hname : isVersioned name = true
      · simp only [hname, if_true, Option.some.injEq] at hplain
        exact ⟨_, _, .plain hname, ⟨rest, rfl⟩, hplain.symm⟩
      · simp [hname] at hplain
    · contradiction

theorem exists_of_special? (hline : OneLine es) (h : special? path host es = some provider) :
    ∃ up url, SpecialRoot host up url ∧ up <+: es ∧
      provider = git path (joinElements (host :: up)) url := by
  unfold special? at h
  split at h
  · rename_i hhost
    rw [beq_iff_eq.1 hhost]
    exact exists_of_extendedLibrary? hline h
  · split at h
    · rename_i hhost
      rw [beq_iff_eq.1 hhost]
      exact exists_of_versioned? hline h
    · contradiction

theorem SpecialRoot.special?_eq (path : String) (h : SpecialRoot host up url) (hline : OneLine es)
    (hpre : up <+: es) :
    special? path host es = some (git path (joinElements (host :: up)) url) := by
  obtain ⟨rest, rfl⟩ := hpre
  cases h with
  | @extended name hname =>
    have hself := dropFinalNewline_eq_self (hline name (by simp)) rest.isEmpty
    simp [special?, extendedLibrary?, hself, hname]
  | @owned user name huser hname =>
    have hself := dropFinalNewline_eq_self (hline name (by simp)) rest.isEmpty
    simp [special?, versioned?, hself, huser, hname]
  | @plain name hname =>
    have hself := dropFinalNewline_eq_self (hline name (by simp)) rest.isEmpty
    have huser := not_isRun_of_dot_mem (dot_mem_of_isVersioned hname)
    cases rest <;> simp_all [special?, versioned?]

/-! ## Elements that end in `.git` -/

def IsRepositoryName (element : String) : Prop :=
  ".git".toList <:+ element.toList

private theorem dot_mem_of_isRepositoryName {element : String} (h : IsRepositoryName element) :
    '.' ∈ element.toList :=
  h.subset (by decide)

/-- The cut behind the first repository name, said of the elements around it. -/
theorem throughGitSuffix?_eq_some_iff :
    throughGitSuffix? es = some up ↔
      ∃ front name back, es = front ++ name :: back ∧ (∀ e ∈ front, ¬ IsRepositoryName e) ∧
        IsRepositoryName name ∧ up = front ++ [name] := by
  induction es generalizing up with
  | nil => simp [throughGitSuffix?]
  | cons e es ih =>
    rw [throughGitSuffix?]
    by_cases he : IsRepositoryName e
    · rw [if_pos (List.isSuffixOf_iff_suffix.2 he)]
      constructor
      · intro h
        exact ⟨[], e, es, rfl, by simp, he, (Option.some.inj h).symm⟩
      · rintro ⟨front, name, back, hsplit, hfront, -, rfl⟩
        cases front with
        | nil => simp_all
        | cons f front =>
          obtain ⟨rfl, -⟩ := List.cons.inj hsplit
          exact absurd he (hfront e List.mem_cons_self)
    · rw [if_neg (fun h => he (List.isSuffixOf_iff_suffix.1 h)), Option.map_eq_some_iff]
      constructor
      · rintro ⟨rest, hrest, rfl⟩
        obtain ⟨front, name, back, rfl, hfront, hname, rfl⟩ := ih.1 hrest
        exact ⟨e :: front, name, back, rfl, List.forall_mem_cons.2 ⟨he, hfront⟩, hname, rfl⟩
      · rintro ⟨front, name, back, hsplit, hfront, hname, rfl⟩
        cases front with
        | nil =>
          obtain ⟨rfl, -⟩ := List.cons.inj hsplit
          exact absurd hname he
        | cons f front =>
          obtain ⟨rfl, hrest⟩ := List.cons.inj hsplit
          exact ⟨front ++ [name], ih.2 ⟨front, name, back, hrest,
            (List.forall_mem_cons.1 hfront).2, hname, rfl⟩, rfl⟩

theorem throughGitSuffix?_of_prefix (h : throughGitSuffix? es = some up) (hpre : up <+: more) :
    throughGitSuffix? more = some up := by
  obtain ⟨front, name, back, rfl, hfront, hname, rfl⟩ := throughGitSuffix?_eq_some_iff.1 h
  obtain ⟨rest, rfl⟩ := hpre
  exact throughGitSuffix?_eq_some_iff.2 ⟨front, name, rest, by simp, hfront, hname, rfl⟩

/-- Of the elements that a host's own form needs only the last can be a repository name. -/
theorem SpecialRoot.not_isRepositoryName {name : String} {front back : List String}
    (h : SpecialRoot host (front ++ name :: back) url) (hback : back ≠ []) :
    ¬ IsRepositoryName name := by
  intro hname
  have hdot := dot_mem_of_isRepositoryName hname
  generalize hall : front ++ name :: back = all at h
  cases h with
  | extended hrun =>
    cases front with
    | nil =>
      obtain ⟨rfl, -⟩ := List.cons.inj hall
      exact absurd hdot (by decide)
    | cons f front => cases front <;> simp_all
  | owned huser =>
    cases front with
    | nil =>
      obtain ⟨rfl, -⟩ := List.cons.inj hall
      exact absurd (huser.symm.trans (not_isRun_of_dot_mem hdot)) (by decide)
    | cons f front => cases front <;> simp_all
  | plain => cases front <;> simp_all

/-- No form of a host's own begins with elements that reach to a repository name, unless it does so
in front of them. -/
theorem special?_eq_none_of_prefix (hline : OneLine es) (hmore : OneLine more)
    (h : special? path host es = none) (hgit : throughGitSuffix? es = some up)
    (hpre : up <+: more) (other : String) : special? other host more = none := by
  cases hspecial : special? other host more with
  | none => rfl
  | some provider =>
    obtain ⟨up', url, hroot, hpre', -⟩ := exists_of_special? hmore hspecial
    obtain ⟨front, name, back, rfl, -, hname, rfl⟩ := throughGitSuffix?_eq_some_iff.1 hgit
    rcases List.prefix_or_prefix_of_prefix hpre' hpre with hle | ⟨rest, rfl⟩
    · have hfound := hroot.special?_eq path hline (hle.trans ⟨back, by simp⟩)
      exact absurd (h.symm.trans hfound) (by simp)
    · rw [List.append_assoc, List.singleton_append] at hroot
      cases rest with
      | nil =>
        have hfound := hroot.special?_eq path hline ⟨back, by simp⟩
        exact absurd (h.symm.trans hfound) (by simp)
      | cons r rest => exact absurd hname (hroot.not_isRepositoryName (List.cons_ne_nil r rest))

/-! ## Roots -/

/-- Elements behind a host that tell a repository, with the place it is fetched from: every path
that goes on from them belongs to it. -/
def IsRoot (host : String) (up : List String) (url : String) : Prop :=
  ∀ path es, OneLine es → up <+: es →
    hosted path host es = git path (joinElements (host :: up)) url

theorem hosted_of_owner (howner : ownerHosts.contains host = true) (owner name : String)
    (rest : List String) :
    hosted path host (owner :: name :: rest) = git path (joinElements [host, owner, name])
      ("https://" ++ joinElements [host, owner, name] ++ ".git") := by
  unfold hosted
  rw [if_pos howner]

theorem hosted_of_not_owner (howner : ¬ ownerHosts.contains host = true) :
    hosted path host es = (special? path host es).getD
      (match throughGitSuffix? es with
      | some up => git path (joinElements (host :: up)) ("https://" ++ joinElements (host :: up))
      | none => ⟨path, path, .unknown, none⟩) := by
  unfold hosted
  rw [if_neg howner]
  rfl

/-- A path behind a host is unknown or begins with a root. -/
theorem hosted_cases (path : String) (hline : OneLine es) :
    hosted path host es = ⟨path, path, .unknown, none⟩ ∨
      ∃ up url, up <+: es ∧ IsRoot host up url := by
  by_cases howner : ownerHosts.contains host = true
  · match es with
    | owner :: name :: rest =>
      right
      refine ⟨[owner, name], "https://" ++ joinElements [host, owner, name] ++ ".git",
        ⟨rest, rfl⟩, ?_⟩
      rintro other _ - ⟨after, rfl⟩
      exact hosted_of_owner howner owner name after
    | [] | [_] =>
      left
      unfold hosted
      rw [if_pos howner]
  · cases hspecial : special? path host es with
    | some provider =>
      obtain ⟨up, url, hroot, hpre, -⟩ := exists_of_special? hline hspecial
      right
      refine ⟨up, url, hpre, fun other more hmore hup => ?_⟩
      rw [hosted_of_not_owner howner, hroot.special?_eq other hmore hup, Option.getD_some]
    | none =>
      cases hgit : throughGitSuffix? es with
      | none =>
        left
        rw [hosted_of_not_owner howner, hspecial, hgit, Option.getD_none]
      | some up =>
        obtain ⟨front, name, back, hsplit, -, -, hup⟩ := throughGitSuffix?_eq_some_iff.1 hgit
        right
        refine ⟨up, "https://" ++ joinElements (host :: up), ⟨back, by simp [hsplit, hup]⟩,
          fun other more hmore hpre => ?_⟩
        rw [hosted_of_not_owner howner,
          special?_eq_none_of_prefix hline hmore hspecial hgit hpre,
          throughGitSuffix?_of_prefix hgit hpre, Option.getD_none]

end ImportSurvey.Dependency
