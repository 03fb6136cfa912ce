import ImportSurvey.Proofs.Dependency.Grouping
/-!
# What pins make of a single path

Resolving looks for a pin twice: under a path of unknown origin, whose root then is the pin's name, and
under the root of whatever comes from a repository. A name is pinned by the pin that bears it, so both
times it is the same pin, and what it says is what the dependency of the path has.
-/

namespace ImportSurvey.Dependency

open Text

variable {context : Context} {path : String} {d : Dependency} {q : Pin} {provider : Provider}
  {place : Option String}

/-- A dependency has the commit and the tag of a pin, and is fetched from where the pin says or, if it
does not say, from another place. -/
structure TakenFrom (d : Dependency) (q : Pin) (place : Option String) : Prop where
  version : d.version = q.commit
  commit : d.commit = q.commit
  tag : d.tag = q.tag
  ownPlace : ∀ url, q.url = some url → url ≠ "" → d.url = some url
  otherPlace : q.url = none ∨ q.url = some "" → d.url = place

structure FollowsNewest (d : Dependency) (place : Option String) : Prop where
  version : d.version = some newestCommit
  commit : d.commit = some newestCommit
  tag : d.tag = none
  url : d.url = place

private theorem urlOr_of_own {url : Option String} {own : String} (h : url = some own)
    (hne : own ≠ "") (other : Option String) : urlOr url other = some own := by
  simp [urlOr, h, Option.filter, hne]

private theorem urlOr_of_other {url : Option String} (h : url = none ∨ url = some "")
    (other : Option String) : urlOr url other = other := by
  rcases h with rfl | rfl
  · rfl
  · rfl

/-! ## One path -/

theorem resolve_singleton (context : Context) (path : String) :
    resolve context (NameSet.ofList [path]) = [((providerOf context path).root,
      { ofPath context path with packages := NameSet.ofList [path] })] := by
  have hnames : (NameSet.ofList [path]).names = [path] := by
    change NameSet.thin ([path].mergeSort _) = [path]
    rw [List.mergeSort_singleton]
    rfl
  have hpackages : (ofPath context path).packages.insert path = NameSet.ofList [path] := by
    rw [packages_ofPath]
    rfl
  rw [resolve, hnames, ← hpackages]
  rfl

theorem name_ofPath (context : Context) (path : String) :
    (ofPath context path).name = (providerOf context path).root := by
  unfold ofPath ofProvider
  split
  · split <;> rfl
  · rfl

theorem ofProvider_takenFrom (hpin : pinFor? context.pins provider.root = some q) :
    TakenFrom (ofProvider context .git provider) q provider.url := by
  have heq : ofProvider context .git provider =
      { name := provider.root, kind := .git, version := q.version,
        url := urlOr q.url provider.url, commit := q.commit, tag := q.tag } := by
    rw [ofProvider, if_pos rfl, hpin]
  rw [heq]
  exact ⟨rfl, rfl, rfl, fun url hurl hne => urlOr_of_own hurl hne _,
    fun hother => urlOr_of_other hother _⟩

theorem ofProvider_followsNewest (hpin : pinFor? context.pins provider.root = none) :
    FollowsNewest (ofProvider context .git provider) provider.url := by
  have heq : ofProvider context .git provider =
      { name := provider.root, kind := .git, version := some newestCommit, url := provider.url,
        commit := some newestCommit } := by
    rw [ofProvider, if_pos rfl, hpin]
  rw [heq]
  exact ⟨rfl, rfl, rfl, rfl⟩

theorem providerOf_of_pinned
    (hunknown : (Provider.ofPath context.modulePath path).kind = .unknown)
    (hpin : pinFor? context.pins path = some q) :
    providerOf context path =
      ⟨path, q.name, .git, urlOr q.url (some ("https://" ++ q.name))⟩ := by
  unfold providerOf
  rw [if_pos hunknown, hpin]

theorem TakenFrom.withPackages (h : TakenFrom d q place) (packages : NameSet) :
    TakenFrom { d with packages := packages } q place :=
  ⟨h.version, h.commit, h.tag, h.ownPlace, h.otherPlace⟩

/-! ## Pinned paths -/

/-- The path alone resolves to one dependency of a repository, under its root. -/
structure ResolvesAlone (context : Context) (path root : String) (d : Dependency) : Prop where
  resolve_eq : resolve context (NameSet.ofList [path]) = [(root, d)]
  name : d.name = root
  kind : d.kind = .git
  packages : d.packages = NameSet.ofList [path]

theorem resolvesAlone_of_git (h : (providerOf context path).kind = .git) :
    ResolvesAlone context path (providerOf context path).root
      { ofPath context path with packages := NameSet.ofList [path] } where
  resolve_eq := resolve_singleton context path
  name := name_ofPath context path
  kind := (kind_ofPath context path).trans h
  packages := rfl

/-- A pin takes over a path of unknown origin: its name becomes the root, and as it is the pin of its
own name the dependency is taken from it. -/
theorem exists_resolvesAlone_of_pinned (hnames : (context.pins.map Pin.name).Nodup)
    (hunknown : (Provider.ofPath context.modulePath path).kind = .unknown)
    (hq : Governs context.pins path q) :
    ∃ d, ResolvesAlone context path q.name d ∧
      TakenFrom d q (some ("https://" ++ q.name)) := by
  have hprovider := providerOf_of_pinned hunknown ((pinFor?_eq_some_iff hnames).2 hq)
  have hgit : (providerOf context path).kind = .git := by rw [hprovider]
  have halone := resolvesAlone_of_git hgit
  have hroot : (providerOf context path).root = q.name := by rw [hprovider]
  rw [hroot] at halone
  refine ⟨_, halone, TakenFrom.withPackages ?_ _⟩
  have htaken := @ofProvider_takenFrom context q (providerOf context path)
    (by rw [hroot]; exact pinFor?_name hnames hq.mem)
  rw [hprovider] at htaken
  rw [ofPath, hprovider]
  refine ⟨htaken.version, htaken.commit, htaken.tag, htaken.ownPlace, fun hother => ?_⟩
  rw [htaken.otherPlace hother]
  exact urlOr_of_other hother _

/-- A path that belongs to a repository by its form is taken from the pin of its root, if that has
one, and follows the newest commit otherwise. -/
theorem exists_resolvesAlone_of_git (hnames : (context.pins.map Pin.name).Nodup)
    (h : Provider.ofPath context.modulePath path = provider) (hgit : provider.kind = .git) :
    ∃ d, ResolvesAlone context path provider.root d ∧
      (∀ q, Governs context.pins provider.root q → TakenFrom d q provider.url) ∧
      ((∀ q ∈ context.pins, ¬ q.Covers provider.root) → FollowsNewest d provider.url) := by
  have hprovider : providerOf context path = provider :=
    providerOf_of_known h (by rw [hgit]; decide)
  have hkind : (providerOf context path).kind = .git := by rw [hprovider, hgit]
  have halone := resolvesAlone_of_git hkind
  rw [hprovider] at halone
  have hpath : ofPath context path = ofProvider context .git provider := by
    rw [ofPath, hprovider, hgit]
  refine ⟨_, halone, fun q hq => ?_, fun hnone => ?_⟩
  · rw [hpath]
    exact (ofProvider_takenFrom ((pinFor?_eq_some_iff hnames).2 hq)).withPackages _
  · have hnewest := ofProvider_followsNewest (pinFor?_eq_none_iff_not_covers.2 hnone)
    rw [hpath]
    exact ⟨hnewest.version, hnewest.commit, hnewest.tag, hnewest.url⟩

/-- The pin for a path is the one with the longest name that covers it, in whatever order the pins
are written. A path of unknown origin becomes the repository that its pin names, and a path that
belongs to a repository is what the pin of its root says. -/
theorem longest_pin_decides {written : List (String × Json)} (hkeys : (written.map Prod.fst).Nodup)
    (hpins : loadPins written = .ok context.pins) :
    (∀ path q, pinFor? context.pins path = some q ↔ Governs context.pins path q) ∧
      (∀ path, pinFor? context.pins path = none ↔ ∀ p ∈ context.pins, ¬ p.Covers path) ∧
      (∀ others, others.Perm written → ∃ pins, loadPins others = .ok pins ∧
        ∀ path, pinFor? pins path = pinFor? context.pins path) ∧
      (∀ path q, (Provider.ofPath context.modulePath path).kind = .unknown →
        Governs context.pins path q →
          ∃ d, ResolvesAlone context path q.name d ∧
            TakenFrom d q (some ("https://" ++ q.name))) ∧
      ∀ path provider, Provider.ofPath context.modulePath path = provider →
        provider.kind = .git →
          ∃ d, ResolvesAlone context path provider.root d ∧
            (∀ q, Governs context.pins provider.root q → TakenFrom d q provider.url) ∧
            ((∀ q ∈ context.pins, ¬ q.Covers provider.root) → FollowsNewest d provider.url) := by
  have hnames : (context.pins.map Pin.name).Nodup := by
    rw [names_of_loadPins hpins]
    exact hkeys
  refine ⟨fun path q => pinFor?_eq_some_iff hnames, fun path => pinFor?_eq_none_iff_not_covers,
    fun others hothers => ?_, fun path q => exists_resolvesAlone_of_pinned hnames,
    fun path provider => exists_resolvesAlone_of_git hnames⟩
  obtain ⟨pins, hread, hperm⟩ := exists_loadPins_perm hothers hpins
  exact ⟨pins, hread, fun path => pinFor?_perm hnames hperm path⟩

theorem governs_nestedContext :
    Governs nestedContext.pins "example.org/a/b"
      ⟨"example.org/a", some "https://e.org/a", some newestCommit, none, none⟩ where
  mem := by decide
  covers := Pin.covers_iff.1 (by decide)
  longest := by
    intro p hp _ hne
    rcases List.mem_cons.1 hp with rfl | hp
    · decide
    · exact absurd (List.mem_singleton.1 hp) hne

/-- Of two pins that cover a path the longer one counts, though it stands behind the other. A path of
a repository that neither covers follows the newest commit. -/
theorem longest_pin_decides_nested :
    (nestedPins.map Prod.fst).Nodup ∧ loadPins nestedPins = .ok nestedContext.pins ∧
      (∃ d, ResolvesAlone nestedContext "example.org/a/b" "example.org/a" d ∧
        d.commit = some newestCommit ∧ d.url = some "https://e.org/a") ∧
      ∃ d, ResolvesAlone nestedContext "github.com/o/r/p" "github.com/o/r" d ∧
        FollowsNewest d (some "https://github.com/o/r.git") := by
  have hkeys : (nestedPins.map Prod.fst).Nodup := by decide
  obtain ⟨-, -, -, hpinned, hgit⟩ := longest_pin_decides hkeys loadPins_nestedPins
  obtain ⟨d, halone, htaken⟩ := hpinned "example.org/a/b" _ (by decide +kernel)
    governs_nestedContext
  obtain ⟨e, halone', -, hnewest⟩ := hgit "github.com/o/r/p"
    ⟨"github.com/o/r/p", "github.com/o/r", .git, some "https://github.com/o/r.git"⟩
    (by decide +kernel) rfl
  have huncovered : ∀ q ∈ nestedContext.pins, ¬ q.Covers "github.com/o/r" := by
    intro q hq hcovers
    have hfalse : ∀ q ∈ nestedContext.pins, covers q.name "github.com/o/r" = false := by decide
    exact absurd ((Pin.covers_iff.2 hcovers).symm.trans (hfalse q hq)) (by decide)
  exact ⟨hkeys, loadPins_nestedPins, ⟨d, halone, htaken.commit, htaken.ownPlace _ rfl (by decide)⟩,
    e, halone', hnewest huncovered⟩

end ImportSurvey.Dependency
