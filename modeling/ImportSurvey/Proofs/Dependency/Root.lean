import ImportSurvey.Dependency.Resolution
import ImportSurvey.Proofs.Dependency.Pins
import ImportSurvey.Proofs.Dependency.Repository
/-!
# Roots are their own providers

The root that provides an import path is, as an import path, provided by itself, of the same kind and
from the same place. So two paths with one root differ in nothing but the path. And a root is the
whole path or some first elements of it.
-/

namespace ImportSurvey.Dependency

open Text

variable {modulePath : Option String} {path root host : String} {es : List String}

theorem isRelative_of_covers (h : isRelative root = true) (hcovers : covers root path = true) :
    isRelative path = true := by
  rw [isRelative, Bool.or_eq_true] at h ⊢
  exact h.imp (covers_trans · hcovers) (covers_trans · hcovers)

theorem not_isRelative_of_covers (h : isRelative path = false) (hcovers : covers root path = true) :
    isRelative root = false := by
  rw [Bool.eq_false_iff]
  intro hroot
  exact absurd ((isRelative_of_covers hroot hcovers).symm.trans h) (by decide)

/-- The path of the pseudo package has one element, so nothing but itself covers it. -/
theorem eq_pseudo_of_covers (h : covers root "C" = true) : root = "C" := by
  rcases covers_iff_eq_or.1 h with hself | ⟨rest, hrest⟩
  · exact hself.symm
  · have hslash : '/' ∈ "C".toList := by
      rw [hrest]
      simp
    exact absurd hslash (by decide)

/-! ## Paths behind a host -/

/-- A path of neither the language nor the project, whose first element is a host with a dot. -/
structure Behind (modulePath : Option String) (path host : String) (es : List String) : Prop where
  elements_eq : elements path = host :: es
  dotted : '.' ∈ host.toList
  not_relative : isRelative path = false
  not_own : ∀ m, modulePath = some m → m ≠ "" → covers m path = false

theorem Behind.ne_pseudo (h : Behind modulePath path host es) : path ≠ "C" := by
  rintro rfl
  have hhost : host = "C" := by
    have heq := h.elements_eq
    rw [show elements "C" = ["C"] by decide] at heq
    exact (List.cons.inj heq).1.symm
  have hdot := h.dotted
  rw [hhost] at hdot
  exact absurd hdot (by decide)

theorem Behind.of_covers (h : Behind modulePath path host es) (hcovers : covers root path = true) :
    ∃ up, up <+: es ∧ Behind modulePath root host up := by
  have hpre := covers_iff.1 hcovers
  rw [h.elements_eq] at hpre
  cases hroot : elements root with
  | nil => exact absurd hroot (elements_ne_nil root)
  | cons first up =>
    rw [hroot, List.cons_prefix_cons] at hpre
    obtain ⟨rfl, hup⟩ := hpre
    have hrelative := not_isRelative_of_covers h.not_relative hcovers
    refine ⟨up, hup, hroot, h.dotted, hrelative, fun m hm hne => ?_⟩
    rw [Bool.eq_false_iff]
    intro hown
    exact absurd ((covers_trans hown hcovers).symm.trans (h.not_own m hm hne)) (by decide)

theorem ownModule_eq_none (h : ∀ m, modulePath = some m → m ≠ "" → covers m path = false) :
    (modulePath.filter fun m => m != "" && covers m path) = none := by
  rw [Option.filter_eq_none_iff]
  intro m hm hboth
  rw [Bool.and_eq_true, bne_iff_ne] at hboth
  exact absurd (hboth.2.symm.trans (h m hm hboth.1)) (by decide)

theorem Behind.ofPath_eq (h : Behind modulePath path host es) :
    Provider.ofPath modulePath path = hosted path host es := by
  have hdotted : host.toList.contains '.' = true := List.contains_iff_mem.2 h.dotted
  unfold Provider.ofPath
  rw [if_neg (by simpa using h.ne_pseudo), if_neg (by simp [h.not_relative]),
    ownModule_eq_none h.not_own, h.elements_eq]
  simp only [hdotted, if_true]

/-- The ways in which a path is provided by its form alone. -/
inductive Origin (modulePath : Option String) (path : String) : Prop
  | pseudo (h : path = "C") (heq : Provider.ofPath modulePath path = ⟨path, path, .pseudo, none⟩)
  | relative (h : isRelative path = true)
      (heq : Provider.ofPath modulePath path = ⟨path, path, .project, none⟩)
  | own (m : String) (hmodule : modulePath = some m) (hne : m ≠ "") (hcovers : covers m path = true)
      (hrelative : isRelative path = false)
      (heq : Provider.ofPath modulePath path = ⟨path, m, .project, none⟩)
  | standard (hrelative : isRelative path = false)
      (hown : ∀ m, modulePath = some m → m ≠ "" → covers m path = false)
      (heq : Provider.ofPath modulePath path = ⟨path, path, .standard, none⟩)
  | behind (host : String) (es : List String) (h : Behind modulePath path host es)

theorem origin (modulePath : Option String) (path : String) : Origin modulePath path := by
  by_cases hpseudo : path = "C"
  · exact .pseudo hpseudo (by simp [Provider.ofPath, hpseudo])
  by_cases hrelative : isRelative path = true
  · exact .relative hrelative (by simp [Provider.ofPath, hpseudo, hrelative])
  rw [Bool.not_eq_true] at hrelative
  by_cases hown : ∃ m, modulePath = some m ∧ m ≠ "" ∧ covers m path = true
  · obtain ⟨m, rfl, hne, hcovers⟩ := hown
    refine .own m rfl hne hcovers hrelative ?_
    simp [Provider.ofPath, hpseudo, hrelative, Option.filter, hne, hcovers]
  · have hnot : ∀ m, modulePath = some m → m ≠ "" → covers m path = false := by
      intro m hm hne
      rw [Bool.eq_false_iff]
      exact fun hcovers => hown ⟨m, hm, hne, hcovers⟩
    cases helements : elements path with
    | nil => exact absurd helements (elements_ne_nil path)
    | cons host es =>
      by_cases hdot : '.' ∈ host.toList
      · exact .behind host es ⟨helements, hdot, hrelative, hnot⟩
      · refine .standard hrelative hnot ?_
        simp [Provider.ofPath, hpseudo, hrelative, ownModule_eq_none hnot, helements, hdot]

/-! ## The root as a path -/

variable {context : Context}

theorem providerOf_of_known {provider : Provider}
    (h : Provider.ofPath context.modulePath path = provider) (hknown : provider.kind ≠ .unknown) :
    providerOf context path = provider := by
  subst h
  unfold providerOf
  rw [if_neg hknown]

theorem providerOf_of_unknown
    (h : Provider.ofPath context.modulePath path = ⟨path, path, .unknown, none⟩) :
    providerOf context path =
      match pinFor? context.pins path with
      | some pin => ⟨path, pin.name, .git, urlOr pin.url (some ("https://" ++ pin.name))⟩
      | none => ⟨path, path, .unknown, none⟩ := by
  unfold providerOf
  rw [h]
  rfl

private theorem oneLine_of_elements_eq (hline : '\n' ∉ path.toList)
    (h : elements path = host :: es) :
    OneLine es := by
  intro e he hnewline
  have hmem : e ∈ elements path := h ▸ List.mem_cons_of_mem host he
  exact hline (of_mem_elements hmem hnewline).1

theorem hosted_eq_unknown_of_prefix {up : List String} (hline : OneLine es)
    (h : hosted path host es = ⟨path, path, .unknown, none⟩) (hpre : up <+: es)
    (root : String) : hosted root host up = ⟨root, root, .unknown, none⟩ := by
  rcases hosted_cases root (hline.of_prefix hpre) with hunknown | ⟨upper, url, hupper, hroot⟩
  · exact hunknown
  · have hgit := hroot path es hline (hupper.trans hpre)
    simp [h, git] at hgit

theorem Behind.covers_root (h : Behind modulePath path host es) {up : List String}
    (hpre : up <+: es) :
    elements (joinElements (host :: up)) = host :: up ∧
      covers (joinElements (host :: up)) path = true := by
  have hsub : host :: up <+: elements path := by
    rw [h.elements_eq]
    exact List.cons_prefix_cons.2 ⟨rfl, hpre⟩
  have hjoin : elements (joinElements (host :: up)) = host :: up := by
    apply elements_joinElements (List.cons_ne_nil host up)
    intro e he hslash
    exact (of_mem_elements (hsub.subset he) hslash).2 rfl
  refine ⟨hjoin, ?_⟩
  rw [covers_iff, hjoin]
  exact hsub

/-- The name of a pin is of unknown form where the path is that it pins, and pinned by the same. -/
theorem Behind.providerOf_root_of_unknown (h : Behind context.modulePath path host es)
    (hnames : (context.pins.map Pin.name).Nodup) (hes : OneLine es)
    (hunknown : hosted path host es = ⟨path, path, .unknown, none⟩) :
    providerOf context (providerOf context path).root =
      { providerOf context path with path := (providerOf context path).root } := by
  have hself := providerOf_of_unknown (h.ofPath_eq.trans hunknown)
  cases hpin : pinFor? context.pins path with
  | none =>
    rw [hpin] at hself
    rw [hself]
    exact hself
  | some pin =>
    rw [hpin] at hself
    rw [hself]
    obtain ⟨hmem, hcovers, -⟩ := pinFor?_eq_some hpin
    obtain ⟨up, hpre, hname⟩ := h.of_covers hcovers
    have hform := hosted_eq_unknown_of_prefix hes hunknown hpre pin.name
    rw [providerOf_of_unknown (hname.ofPath_eq.trans hform), pinFor?_name hnames hmem]

theorem Behind.providerOf_root_of_git (h : Behind context.modulePath path host es)
    (hes : OneLine es) {up : List String} {url : String} (hpre : up <+: es)
    (hroot : IsRoot host up url) :
    providerOf context (providerOf context path).root =
      { providerOf context path with path := (providerOf context path).root } := by
  have hself := hroot path es hes hpre
  rw [providerOf_of_known (h.ofPath_eq.trans hself) (by simp [git])]
  apply providerOf_of_known _ (by simp [git])
  obtain ⟨helements, hcovers⟩ := h.covers_root hpre
  obtain ⟨up', -, hbehind⟩ := h.of_covers hcovers
  have hup : up' = up := by
    have heq := hbehind.elements_eq
    rw [helements] at heq
    exact (List.cons.inj heq).2.symm
  subst hup
  exact hbehind.ofPath_eq.trans (hroot _ up' (hes.of_prefix hpre) (List.prefix_refl up'))

/-- The root that provides a path is provided by itself, of the same kind and from the same place. -/
theorem providerOf_root (hmodule : context.modulePath ≠ some "C")
    (hnames : (context.pins.map Pin.name).Nodup) (hline : '\n' ∉ path.toList) :
    providerOf context (providerOf context path).root =
      { providerOf context path with path := (providerOf context path).root } := by
  cases origin context.modulePath path with
  | pseudo _ heq | relative _ heq | standard _ _ heq =>
    have hself := providerOf_of_known heq (by simp)
    rw [hself]
    exact hself
  | own m hm hne hcovers hrelative heq =>
    rw [providerOf_of_known heq (by simp)]
    apply providerOf_of_known _ (by simp)
    have hmrelative := not_isRelative_of_covers hrelative hcovers
    have hmpseudo : m ≠ "C" := by
      rintro rfl
      exact hmodule hm
    simp [Provider.ofPath, hm, hmrelative, hmpseudo, Option.filter, hne]
  | behind host es hbehind =>
    have hes := oneLine_of_elements_eq hline hbehind.elements_eq
    rcases hosted_cases path hes with hunknown | ⟨up, url, hpre, hroot⟩
    · exact hbehind.providerOf_root_of_unknown hnames hes hunknown
    · exact hbehind.providerOf_root_of_git hes hpre hroot

theorem providerOf_eq_of_root_eq (hmodule : context.modulePath ≠ some "C")
    (hnames : (context.pins.map Pin.name).Nodup) {p q : String} (hp : '\n' ∉ p.toList)
    (hq : '\n' ∉ q.toList) (h : (providerOf context p).root = (providerOf context q).root) :
    { providerOf context p with path := q } = { providerOf context q with path := q } := by
  have hpr := providerOf_root hmodule hnames hp
  have hqr := providerOf_root hmodule hnames hq
  rw [h, hqr] at hpr
  simp only [Provider.mk.injEq, true_and] at hpr ⊢
  exact ⟨hpr.1.symm, hpr.2.1.symm, hpr.2.2.symm⟩

/-! ## What a root covers -/

theorem Behind.covers_root_of_unknown (h : Behind context.modulePath path host es)
    (hunknown : hosted path host es = ⟨path, path, .unknown, none⟩) :
    covers (providerOf context path).root path = true := by
  rw [providerOf_of_unknown (h.ofPath_eq.trans hunknown)]
  cases hpin : pinFor? context.pins path with
  | none => exact covers_self path
  | some pin => exact (pinFor?_eq_some hpin).2.1

/-- A path begins with its root. -/
theorem covers_root_providerOf (context : Context) (hline : '\n' ∉ path.toList) :
    covers (providerOf context path).root path = true := by
  cases origin context.modulePath path with
  | pseudo _ heq | relative _ heq | standard _ _ heq =>
    rw [providerOf_of_known heq (by simp)]
    exact covers_self path
  | own m _ _ hcovers _ heq =>
    rw [providerOf_of_known heq (by simp)]
    exact hcovers
  | behind host es hbehind =>
    have hes := oneLine_of_elements_eq hline hbehind.elements_eq
    rcases hosted_cases path hes with hunknown | ⟨up, url, hpre, hroot⟩
    · exact hbehind.covers_root_of_unknown hunknown
    · have hself := hbehind.ofPath_eq.trans (hroot path es hes hpre)
      rw [providerOf_of_known hself (by simp [git])]
      exact (hbehind.covers_root hpre).2

/-- A root stays what it is when it is looked up as a path, kind and place included, and the path it
was found for is the root itself or goes on from it behind a slash. -/
theorem root_is_fixed {written : List (String × Json)} (hmodule : context.modulePath ≠ some "C")
    (hkeys : (written.map Prod.fst).Nodup) (hpins : loadPins written = .ok context.pins)
    (hline : '\n' ∉ path.toList) :
    (providerOf context (providerOf context path).root).root = (providerOf context path).root ∧
      (providerOf context (providerOf context path).root).kind = (providerOf context path).kind ∧
      (providerOf context (providerOf context path).root).url = (providerOf context path).url ∧
      (path = (providerOf context path).root ∨
        ∃ rest, path = (providerOf context path).root ++ "/" ++ rest) := by
  have hnames : (context.pins.map Pin.name).Nodup := by
    rw [names_of_loadPins hpins]
    exact hkeys
  have hcovers := covers_iff_eq_or.1 (covers_root_providerOf context hline)
  rw [providerOf_root hmodule hnames hline]
  exact ⟨rfl, rfl, rfl, hcovers⟩

def nestedPins : List (String × Json) :=
  [("example.org", .str "1f2e"), ("example.org/a", .obj [("url", .str "https://e.org/a")])]

def nestedContext : Context :=
  ⟨some "me/app",
    [⟨"example.org", none, some "1f2e", none, none⟩,
      ⟨"example.org/a", some "https://e.org/a", some newestCommit, none, none⟩]⟩

theorem loadPins_nestedPins : loadPins nestedPins = .ok nestedContext.pins := by
  decide +kernel

/-- The longer of two pins makes its name the root, which is pinned by it and not by the shorter. -/
theorem root_is_fixed_pinned :
    nestedContext.modulePath ≠ some "C" ∧ (nestedPins.map Prod.fst).Nodup ∧
      loadPins nestedPins = .ok nestedContext.pins ∧
      (providerOf nestedContext "example.org/a/b").root = "example.org/a" ∧
      (providerOf nestedContext "example.org/a").root = "example.org/a" ∧
      (providerOf nestedContext "example.org/a").kind = .git ∧
      (providerOf nestedContext "example.org/a").url = some "https://e.org/a" := by
  have hmodule : nestedContext.modulePath ≠ some "C" := by decide
  have hkeys : (nestedPins.map Prod.fst).Nodup := by decide
  have hprovider : providerOf nestedContext "example.org/a/b" =
      ⟨"example.org/a/b", "example.org/a", .git, some "https://e.org/a"⟩ := by
    decide +kernel
  have h := @root_is_fixed "example.org/a/b" nestedContext nestedPins hmodule hkeys
    loadPins_nestedPins (by decide)
  rw [hprovider] at h
  exact ⟨hmodule, hkeys, loadPins_nestedPins, by rw [hprovider], h.1, h.2.1, h.2.2.1⟩

/-! ## Relative roots -/

theorem isRelative_iff :
    isRelative path = true ↔
      (elements path).head? = some "." ∨ (elements path).head? = some ".." := by
  have hcovers : ∀ dots : String, elements dots = [dots] →
      (covers dots path = true ↔ (elements path).head? = some dots) := by
    intro dots hdots
    rw [covers_iff, hdots]
    cases elements path with
    | nil => simp
    | cons e es => simp [List.cons_prefix_cons, eq_comm]
  rw [isRelative, Bool.or_eq_true, hcovers "." (by decide), hcovers ".." (by decide)]

private theorem head?_elements_joinElements (h : '/' ∉ host.toList) (es : List String) :
    (elements (joinElements (host :: es))).head? = some host := by
  have hhost : elements host = [host] := by
    have hsingle := elements_joinElements (List.cons_ne_nil host []) (by simpa using h)
    rwa [joinElements, String.intercalate_singleton] at hsingle
  cases es with
  | nil => rw [joinElements, String.intercalate_singleton, hhost, List.head?_cons]
  | cons e es =>
    rw [joinElements, String.intercalate_cons_cons, elements_append, hhost]
    rfl

theorem exists_git_of_special? {provider : Provider} (h : special? path host es = some provider) :
    ∃ up url, provider = git path (joinElements (host :: up)) url := by
  unfold special? at h
  split at h
  · rename_i hhost
    rw [beq_iff_eq.1 hhost]
    unfold extendedLibrary? at h
    grind
  · split at h
    · rename_i hhost
      rw [beq_iff_eq.1 hhost]
      unfold versioned? at h
      grind
    · contradiction

theorem hosted_unknown_or_git (path host : String) (es : List String) :
    hosted path host es = ⟨path, path, .unknown, none⟩ ∨
      ∃ up url, hosted path host es = git path (joinElements (host :: up)) url := by
  by_cases howner : ownerHosts.contains host = true
  · match es with
    | owner :: name :: rest => exact Or.inr ⟨[owner, name], _, hosted_of_owner howner owner name rest⟩
    | [] | [_] =>
      left
      unfold hosted
      rw [if_pos howner]
  · rw [hosted_of_not_owner howner]
    cases hspecial : special? path host es with
    | some provider => exact Or.inr (exists_git_of_special? hspecial)
    | none =>
      cases throughGitSuffix? es with
      | some up => exact Or.inr ⟨up, _, rfl⟩
      | none => exact Or.inl rfl

theorem exists_root_hosted (h : elements path = host :: es) :
    ∃ up, (hosted path host es).root = joinElements (host :: up) := by
  rcases hosted_unknown_or_git path host es with hunknown | ⟨up, url, hgit⟩
  · exact ⟨es, by rw [hunknown, ← h, joinElements_elements]⟩
  · exact ⟨up, by rw [hgit, git]⟩

theorem Behind.slash_not_mem (h : Behind modulePath path host es) : '/' ∉ host.toList := by
  have hmem : host ∈ elements path := by
    rw [h.elements_eq]
    exact List.mem_cons_self
  exact fun hslash => (of_mem_elements hmem hslash).2 rfl

theorem Behind.not_isRelative_hosted (h : Behind modulePath path host es) :
    isRelative (hosted path host es).root = false := by
  obtain ⟨up, hup⟩ := exists_root_hosted h.elements_eq
  have hrelative := h.not_relative
  rw [Bool.eq_false_iff, Ne, isRelative_iff, h.elements_eq, List.head?_cons] at hrelative
  rw [hup, Bool.eq_false_iff, Ne, isRelative_iff, head?_elements_joinElements h.slash_not_mem]
  exact hrelative

theorem root_providerOf (context : Context) (path : String) :
    (providerOf context path).root = (Provider.ofPath context.modulePath path).root ∨
      ∃ pin, pinFor? context.pins path = some pin ∧ (providerOf context path).root = pin.name := by
  by_cases hkind : (Provider.ofPath context.modulePath path).kind = .unknown
  · cases hpin : pinFor? context.pins path with
    | none => exact Or.inl (by simp [providerOf, hpin])
    | some pin => exact Or.inr ⟨pin, rfl, by simp [providerOf, hkind, hpin]⟩
  · exact Or.inl (by rw [providerOf_of_known rfl hkind])

theorem Behind.not_isRelative_root (h : Behind context.modulePath path host es) :
    isRelative (providerOf context path).root = false := by
  rcases root_providerOf context path with hroot | ⟨pin, hpin, hroot⟩
  · rw [hroot, h.ofPath_eq]
    exact h.not_isRelative_hosted
  · rw [hroot]
    exact not_isRelative_of_covers h.not_relative (pinFor?_eq_some hpin).2.1

theorem kind_eq_project_of_isRelative_root (h : isRelative (providerOf context path).root = true) :
    (providerOf context path).kind = .project := by
  cases origin context.modulePath path with
  | relative _ heq | own _ _ _ _ _ heq => rw [providerOf_of_known heq (by simp)]
  | pseudo hpath heq =>
    rw [providerOf_of_known heq (by simp), hpath] at h
    exact absurd h (by decide)
  | standard hrelative _ heq =>
    rw [providerOf_of_known heq (by simp)] at h
    exact absurd (h.symm.trans hrelative) (by decide)
  | behind host es hbehind =>
    exact absurd (h.symm.trans hbehind.not_isRelative_root) (by decide)

end ImportSurvey.Dependency
