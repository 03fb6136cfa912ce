import ImportSurvey.Proofs.Config.Tags
import ImportSurvey.Proofs.Text.Elements
import ImportSurvey.Proofs.Text.Trim
/-!
# Usable configurations

Edits give a setting only values that the setting admits: lists of different texts, a release that is
known, a platform with a name, and as many workers as there may be. Every default is such a value and
an edit that fails stores none, so a configuration that edits make of the default one can be used for
every build.
-/

namespace ImportSurvey.Config

open Text Platform

variable {c : Config} {s : Setting} {v : Json} {tags texts : List String} {text raw : String}

/-- A text that can stand in a list of tags: it holds nothing at which such a list is cut. -/
def IsTag (tag : String) : Prop :=
  tag ≠ "" ∧ ∀ ch ∈ tag.toList, ch ≠ ',' ∧ isBlank ch = false

/-- The values that edits give a setting. -/
def Setting.Admits (s : Setting) (v : Json) : Prop :=
  match s with
  | system | architecture => ∃ text, v = .str text ∧ IsNeat text
  | goVersion => ∃ text releases, v = .str text ∧ releaseTags text = .ok releases
  | scanWorkers => ∃ n : Int, v = .int n ∧ 1 ≤ n ∧ n ≤ 64
  | buildTags | exclude =>
    ∃ texts : List String, v = .arr (texts.map .str) ∧ texts.Nodup ∧
      (s = buildTags → ∀ tag ∈ texts, IsTag tag)
  | cgoEnabled | includeTests | modulePath | dependencies => s.shape.fits v = true

def Usable (c : Config) : Prop :=
  ∀ s : Setting, ∃ v, c.members.get? s.key = some v ∧ s.Admits v

theorem Setting.admits_default (s : Setting) : s.Admits s.default := by
  have hneat : ∀ name : String, trimmed name = name → name ≠ "" → IsNeat name := by
    intro name htrim hne
    rw [← htrim] at hne ⊢
    exact isNeat_trimmed hne
  cases s with
  | system => exact ⟨"linux", rfl, hneat "linux" (by decide) (by decide)⟩
  | architecture => exact ⟨"amd64", rfl, hneat "amd64" (by decide) (by decide)⟩
  | goVersion => exact ⟨"1.22", _, rfl, rfl⟩
  | scanWorkers => exact ⟨8, rfl, by decide, by decide⟩
  | buildTags | exclude =>
    exact ⟨[], rfl, List.nodup_nil, fun _ tag htag => absurd htag List.not_mem_nil⟩
  | cgoEnabled | includeTests | modulePath | dependencies => exact rfl

theorem usable_default : Usable default := by
  intro s
  refine ⟨s.default, ?_, s.admits_default⟩
  cases s <;> rfl

theorem Usable.put (h : Usable c) (hv : s.Admits v) : Usable (c.put s v) := by
  intro t
  rw [get?_put]
  by_cases hts : t = s
  · exact ⟨v, if_pos (congrArg Setting.key hts), hts ▸ hv⟩
  · obtain ⟨w, hw, hadmits⟩ := h t
    exact ⟨w, (if_neg fun hkey => hts (Setting.key_inj.1 hkey)).trans hw, hadmits⟩

/-! ## Values that are read -/

theorem admits_of_fits (hs : s.shape = .flag) (hv : s.shape.fits v = true) : s.Admits v := by
  cases s with
  | cgoEnabled | includeTests => exact hv
  | _ => cases hs

theorem admits_of_readFlag (hs : s.shape = .flag) {key : String} (h : readFlag key raw = .ok v) :
    s.Admits v := by
  apply admits_of_fits hs
  rw [hs]
  simp only [readFlag] at h
  split at h
  · rw [← Except.ok.inj h]
    rfl
  · split at h
    · rw [← Except.ok.inj h]
      rfl
    · cases h

theorem admits_of_readNumber (hs : s.shape = .number) (h : readNumber raw = .ok v) :
    s.Admits v := by
  obtain rfl : s = .scanWorkers := by
    cases s with
    | scanWorkers => rfl
    | _ => cases hs
  rw [readNumber] at h
  cases hraw : integer? raw with
  | error e =>
    rw [hraw] at h
    cases h
  | ok n =>
    rw [hraw] at h
    by_cases hrange : 1 ≤ n ∧ n ≤ mostWorkers
    · simp only [Bool.and_eq_true, decide_eq_true_eq, if_pos hrange] at h
      exact ⟨n, (Except.ok.inj h).symm, hrange⟩
    · simp only [Bool.and_eq_true, decide_eq_true_eq, if_neg hrange] at h
      cases h

theorem admits_of_readText (hs : s.shape = .text) (h : readText s raw = .ok v) : s.Admits v := by
  have hplatform : (if trimmed raw == "" then .error (.emptyPlatform s.key)
      else .ok (.str (trimmed raw)) : Except Error Json) = .ok v →
      ∃ text, v = .str text ∧ IsNeat text := by
    intro h
    by_cases hempty : trimmed raw = ""
    · rw [if_pos (by simpa using hempty)] at h
      cases h
    · rw [if_neg (by simpa using hempty)] at h
      exact ⟨trimmed raw, (Except.ok.inj h).symm, isNeat_trimmed hempty⟩
  cases s with
  | system | architecture => exact hplatform h
  | goVersion =>
    simp only [readText] at h
    cases hreleases : releaseTags (trimmed raw) with
    | error e =>
      rw [hreleases] at h
      cases h
    | ok releases =>
      rw [hreleases] at h
      exact ⟨trimmed raw, releases, (Except.ok.inj h).symm, hreleases⟩
  | modulePath =>
    rw [← Except.ok.inj h]
    exact rfl
  | _ => cases hs

theorem isTag_of_mem_splitTags (h : text ∈ splitTags raw) : IsTag text := by
  obtain ⟨part, hpart, rfl⟩ := List.mem_map.1 h
  obtain ⟨hsplit, hne⟩ := List.mem_filter.1 hpart
  refine ⟨?_, fun ch hch => ?_⟩
  · rw [Ne, String.ofList_eq_empty_iff]
    simpa using hne
  · rw [String.toList_ofList] at hch
    simpa using (of_mem_splitOnP hsplit hch).2

theorem exists_foldl_withText (h : tags.Nodup) (texts : List String) :
    ∃ all : List String, texts.foldl withText (tags.map .str) = .map .str all ∧ all.Nodup ∧
      ∀ a, a ∈ all ↔ a ∈ tags ∨ a ∈ texts := by
  induction texts generalizing tags with
  | nil => exact ⟨tags, rfl, h, fun a => by simp⟩
  | cons text texts ih =>
    have hmem : Json.str text ∈ tags.map Json.str ↔ text ∈ tags := by simp
    rw [List.foldl_cons]
    by_cases htext : text ∈ tags
    · rw [withText_of_mem (hmem.2 htext)]
      obtain ⟨all, hall, hnodup, hiff⟩ := ih h
      refine ⟨all, hall, hnodup, fun a => ?_⟩
      rw [hiff, List.mem_cons, ← or_assoc, or_iff_left_of_imp fun heq : a = text => heq ▸ htext]
    · have happend : tags.map Json.str ++ [.str text] = (tags ++ [text]).map .str := by simp
      rw [withText_of_not_mem fun hstr => htext (hmem.1 hstr), happend]
      obtain ⟨all, hall, hnodup, hiff⟩ := ih (h.append (List.nodup_singleton text)
        (List.disjoint_singleton.2 htext))
      refine ⟨all, hall, hnodup, fun a => ?_⟩
      rw [hiff, List.mem_append, List.mem_singleton, List.mem_cons, or_assoc]

/-! ## Edits -/

theorem Usable.addTexts (h : Usable c) (hs : s.shape = .list)
    (htexts : s = .buildTags → ∀ tag ∈ texts, IsTag tag) :
    Usable ((addTexts s texts).outcome c).2 := by
  obtain ⟨v, hget, hadmits⟩ := h s
  -- the two lists differ in what is asked of tags only
  have hlist : ∀ v, s.Admits v ↔ ∃ texts : List String, v = .arr (texts.map .str) ∧ texts.Nodup ∧
      (s = .buildTags → ∀ tag ∈ texts, IsTag tag) := by
    intro v
    cases s with
    | buildTags | exclude => exact Iff.rfl
    | _ => cases hs
  obtain ⟨tags, rfl, hnodup, htags⟩ := (hlist v).1 hadmits
  obtain ⟨all, hall, hnodup, hiff⟩ := exists_foldl_withText hnodup texts
  rw [outcome_addTexts hget, hall]
  refine h.put ((hlist _).2 ⟨all, rfl, hnodup, fun hbuild tag htag => ?_⟩)
  exact ((hiff tag).1 htag).elim (htags hbuild tag) (htexts hbuild tag)

theorem Usable.edit_set (h : Usable c) {read : Except Error Json}
    (hset : setSetting s raw = (do store s (← read))) (hread : ∀ v, read = .ok v → s.Admits v) :
    Usable (c.edit (.set s.key raw)).2 := by
  cases hresult : read with
  | error err =>
    rw [edit_fails hset hresult]
    exact h
  | ok v =>
    rw [edit_stores hset hresult]
    exact h.put (hread v hresult)

theorem Usable.edit (h : Usable c) (e : Edit) : Usable (c.edit e).2 := by
  cases e with
  | set key raw =>
    cases hkey : Setting.ofKey? key with
    | none =>
      rw [edit_of_refused (.unknownSet hkey)]
      exact h
    | some s =>
      obtain rfl := Setting.eq_key_of_ofKey? hkey
      cases hs : s.shape with
      | number => exact h.edit_set (by rw [setSetting, hs]) fun v => admits_of_readNumber hs
      | flag => exact h.edit_set (by rw [setSetting, hs]) fun v => admits_of_readFlag hs
      | text => exact h.edit_set (by rw [setSetting, hs]) fun v => admits_of_readText hs
      | list =>
        rw [Config.edit_set, setSetting, hs]
        refine h.addTexts hs fun hbuild tag htag => ?_
        rw [if_pos hbuild] at htag
        exact isTag_of_mem_splitTags htag
      | table =>
        rw [edit_of_refused (.tableKey hs)]
        exact h
  | unset key =>
    cases hkey : Setting.ofKey? key with
    | none =>
      rw [edit_of_refused (.unknownUnset hkey)]
      exact h
    | some s =>
      obtain rfl := Setting.eq_key_of_ofKey? hkey
      rw [edit_unset]
      exact h.put s.admits_default
  | exclude pattern => exact h.addTexts rfl fun hbuild => absurd hbuild (by decide)

theorem Usable.after (h : Usable c) (edits : List Edit) : Usable (c.after edits) := by
  induction edits generalizing c with
  | nil => exact h
  | cons e edits ih => exact ih (h.edit e)

/-! ## Use -/

theorem textOf_of_get? (h : c.members.get? s.key = some (.str text)) (hne : text ≠ "") :
    c.textOf s = text := by
  have htruthy : (Json.str text).isTruthy = true := by simpa [Json.isTruthy] using hne
  simp only [textOf, get_of_get? h, htruthy, if_true]
  rfl

theorem Usable.exists_tags (h : Usable c) (system architecture : Option String)
    (extra : List String) : ∃ tags, c.tags system architecture extra = .ok tags := by
  obtain ⟨_, hbuild, texts, rfl, -⟩ := h .buildTags
  obtain ⟨_, hversion, version, releases, rfl, hreleases⟩ := h .goVersion
  have hne : version ≠ "" := by
    rintro rfl
    cases hreleases
  have htarget : releaseTags (c.target system architecture).version = .ok releases := by
    rw [target, textOf_of_get? hversion hne, hreleases]
  rw [tags_eq (itemTexts_of_get? hbuild), Target.tags, htarget]
  exact ⟨_, rfl⟩

/-- Whatever edits are made of the default configuration, those that fail included, there are tags for
every target and with any extra tags, the system and the architecture have names without blanks around
them, the number of workers is in its range, and no list holds a text twice or a tag that would be cut
into parts. -/
theorem usable_after_default (edits : List Edit) :
    (∀ system architecture extra, ∃ tags,
      (default.after edits).tags system architecture extra = .ok tags) ∧
    (∀ s : Setting, s = .system ∨ s = .architecture → ∃ name,
      (default.after edits).members.get? s.key = some (.str name) ∧ IsNeat name) ∧
    (∃ n : Int, (default.after edits).members.get? Setting.scanWorkers.key = some (.int n) ∧
      1 ≤ n ∧ n ≤ 64) ∧
    (∃ tags : List String,
      (default.after edits).members.get? Setting.buildTags.key = some (.arr (tags.map .str)) ∧
      tags.Nodup ∧ ∀ tag ∈ tags, tag ≠ "" ∧ ∀ ch ∈ tag.toList, ch ≠ ',' ∧ isBlank ch = false) ∧
    ∃ patterns : List String,
      (default.after edits).members.get? Setting.exclude.key = some (.arr (patterns.map .str)) ∧
      patterns.Nodup := by
  have h := usable_default.after edits
  refine ⟨h.exists_tags, fun s hs => ?_, ?_, ?_, ?_⟩
  · obtain ⟨v, hget, hadmits⟩ := h s
    rcases hs with rfl | rfl
    all_goals
      obtain ⟨name, rfl, hname⟩ := hadmits
      exact ⟨name, hget, hname⟩
  · obtain ⟨_, hget, n, rfl, hrange⟩ := h .scanWorkers
    exact ⟨n, hget, hrange⟩
  · obtain ⟨_, hget, tags, rfl, hnodup, htags⟩ := h .buildTags
    exact ⟨tags, hget, hnodup, htags rfl⟩
  · obtain ⟨_, hget, patterns, rfl, hnodup, -⟩ := h .exclude
    exact ⟨patterns, hget, hnodup⟩

def mixedEdits : List Edit :=
  [.set "goos" " ios ", .set "goos" " ", .set "build_tags" "b,a b", .set "scan_workers" "65",
    .set "go_version" "go1.21.3\n", .set "go_version" "latest", .exclude "gen", .unset "tags",
    .set "exclude" "gen", .set "dependencies" "x"]

theorem usable_after_default_mixedEdits :
    (default.after mixedEdits).members.get? "goos" = some (.str "ios") ∧ IsNeat "ios" ∧
      (default.after mixedEdits).members.get? "exclude" = some (.arr [.str "gen"]) ∧
      ∃ tags, (default.after mixedEdits).tags none (some "arm") ["x"] = .ok tags := by
  obtain ⟨htags, hnames, -⟩ := usable_after_default mixedEdits
  have hsystem : (default.after mixedEdits).members.get? Setting.system.key = some (.str "ios") := rfl
  obtain ⟨name, hget, hneat⟩ := hnames .system (Or.inl rfl)
  rw [hsystem, Option.some.injEq, Json.str.injEq] at hget
  exact ⟨hsystem, hget ▸ hneat, rfl, htags none (some "arm") ["x"]⟩

end ImportSurvey.Config
