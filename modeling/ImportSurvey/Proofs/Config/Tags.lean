import ImportSurvey.Proofs.Config.Editing
import ImportSurvey.Proofs.Config.File
/-!
# Tags set in a configuration

A build tag counts the same whether it is kept in the configuration or given for one run. A list
setting gains the texts that it does not hold yet, whatever else it holds, so setting the same tags
again changes nothing; and the tags of a target depend on which tags are added, not on their order or
on how often each is named.
-/

namespace ImportSurvey.Platform

variable {xs ys : List String}

theorem Target.tags_congr (t : Target) (h : ∀ a, a ∈ xs ↔ a ∈ ys) : t.tags xs = t.tags ys := by
  have hsame : ∀ releases, NameSet.ofList (t.tagList releases xs) =
      NameSet.ofList (t.tagList releases ys) := by
    intro releases
    apply NameSet.ext
    intro a
    simp only [NameSet.mem_ofList, Target.tagList, usableTags, List.mem_append, List.mem_filter,
      List.mem_map, h]
  simp only [Target.tags, hsame]

end ImportSurvey.Platform

namespace ImportSurvey.Config

open Text Platform Workspace

variable {c : Config} {s : Setting} {items : List Json} {texts configured : List String}
  {text : String} {v : Json}

/-! ## Lists that gain texts -/

private theorem any_text?_iff :
    items.any (fun v => v.text? == some text) = true ↔ Json.str text ∈ items := by
  rw [List.any_eq_true]
  constructor
  · rintro ⟨v, hv, htext⟩
    cases v with
    | str value =>
      obtain rfl : value = text := by simpa [Json.text?] using htext
      exact hv
    | _ => simp [Json.text?] at htext
  · intro h
    exact ⟨.str text, h, by simp [Json.text?]⟩

theorem withText_of_mem (h : Json.str text ∈ items) : withText items text = items := by
  rw [withText, if_pos (any_text?_iff.2 h)]

theorem withText_of_not_mem (h : Json.str text ∉ items) :
    withText items text = items ++ [.str text] := by
  rw [withText, if_neg fun hany => h (any_text?_iff.1 hany)]

private theorem mem_withText : v ∈ withText items text ↔ v ∈ items ∨ v = .str text := by
  by_cases h : Json.str text ∈ items
  · rw [withText_of_mem h, iff_self_or]
    rintro rfl
    exact h
  · rw [withText_of_not_mem h, List.mem_append, List.mem_singleton]

private theorem mem_foldl_withText :
    v ∈ texts.foldl withText items ↔ v ∈ items ∨ ∃ text ∈ texts, v = .str text := by
  induction texts generalizing items with
  | nil => simp
  | cons first texts ih =>
    rw [List.foldl_cons, ih, mem_withText, or_assoc, List.exists_mem_cons_iff]

private theorem foldl_withText_eq_self (h : ∀ text ∈ texts, Json.str text ∈ items) :
    texts.foldl withText items = items := by
  induction texts with
  | nil => rfl
  | cons first texts ih =>
    rw [List.foldl_cons, withText_of_mem (h first List.mem_cons_self)]
    exact ih fun text htext => h text (List.mem_cons_of_mem first htext)

private theorem mem_map_plainText_foldl {a : String} :
    a ∈ (texts.foldl withText items).map Json.plainText ↔
      a ∈ items.map Json.plainText ∨ a ∈ texts := by
  simp only [List.mem_map, mem_foldl_withText]
  constructor
  · rintro ⟨v, hv | ⟨text, htext, rfl⟩, rfl⟩
    · exact Or.inl ⟨v, hv, rfl⟩
    · exact Or.inr htext
  · rintro (⟨v, hv, rfl⟩ | ha)
    · exact ⟨v, Or.inl hv, rfl⟩
    · exact ⟨.str a, Or.inr ⟨a, ha, rfl⟩, rfl⟩

/-! ## Targets -/

/-- What is built for under a configuration, with a system or architecture in place of the configured
one where the text given is not empty. -/
def target (c : Config) (system architecture : Option String) : Target where
  system := (system.filter (· != "")).getD (c.textOf .system)
  architecture := (architecture.filter (· != "")).getD (c.textOf .architecture)
  version := c.textOf .goVersion
  cgo := (c.get .cgoEnabled).isTruthy

theorem tags_eq (h : itemTexts (c.get .buildTags) = .ok configured)
    (system architecture : Option String) (extra : List String) :
    c.tags system architecture extra =
      ((c.target system architecture).tags (configured ++ extra)).mapError .badVersion := by
  cases hresult : (c.target system architecture).tags (configured ++ extra) with
  | ok tags =>
    rw [target] at hresult
    simp only [Config.tags, h, hresult, bind, Except.bind, pure, Except.pure, Except.mapError]
  | error e =>
    rw [target] at hresult
    simp only [Config.tags, h, hresult, bind, Except.bind, Except.mapError]
    rfl

theorem get_of_get? (h : c.members.get? s.key = some v) : c.get s = v := by
  rw [get, h, Option.getD_some]

private theorem get?_put_self (c : Config) (s : Setting) (v : Json) :
    (c.put s v).members.get? s.key = some v := by
  rw [get?_put, if_pos rfl]

private theorem get_put_of_ne {t : Setting} (h : t ≠ s) (c : Config) (v : Json) :
    (c.put s v).get t = c.get t := by
  rw [get, get, get?_put, if_neg fun hkey => h (Setting.key_inj.1 hkey)]

theorem target_put_buildTags (c : Config) (v : Json) :
    (c.put .buildTags v).target = c.target := by
  have hsystem : (c.put .buildTags v).get .system = c.get .system :=
    get_put_of_ne (by decide) c v
  have harchitecture : (c.put .buildTags v).get .architecture = c.get .architecture :=
    get_put_of_ne (by decide) c v
  have hversion : (c.put .buildTags v).get .goVersion = c.get .goVersion :=
    get_put_of_ne (by decide) c v
  have hcgo : (c.put .buildTags v).get .cgoEnabled = c.get .cgoEnabled :=
    get_put_of_ne (by decide) c v
  funext system architecture
  simp only [target, textOf, hsystem, harchitecture, hversion, hcgo]

theorem exists_list_of_isNormal (hc : c.isNormal = true) (hs : s.shape = .list) :
    ∃ items, c.members.get? s.key = some (.arr items) := by
  obtain ⟨v, hget, hfits⟩ := isWellTyped_iff.1 (isNormal_iff.1 hc s)
  rw [hs] at hfits
  cases v with
  | arr items => exact ⟨items, hget⟩
  | _ => cases hfits

/-! ## Tags that are set and tags that are given -/

theorem edit_set_buildTags (h : c.members.get? Setting.buildTags.key = some (.arr items))
    (raw : String) :
    c.edit (.set Setting.buildTags.key raw) =
      (.ok (), c.put .buildTags (.arr ((splitTags raw).foldl withText items))) := by
  rw [edit_set]
  exact outcome_addTexts h (splitTags raw)

theorem edit_set_buildTags_of_mem (h : c.members.get? Setting.buildTags.key = some (.arr items))
    {raw : String} (hmem : ∀ text ∈ splitTags raw, Json.str text ∈ items) :
    c.edit (.set Setting.buildTags.key raw) = (.ok (), c) := by
  have hsame : c.put .buildTags (.arr items) = c := congrArg Config.mk (Table.put_of_get? h)
  rw [edit_set_buildTags h, foldl_withText_eq_self hmem, hsame]

theorem itemTexts_of_get? (h : c.members.get? Setting.buildTags.key = some (.arr items)) :
    itemTexts (c.get .buildTags) = .ok (items.map Json.plainText) := by
  rw [get_of_get? h]
  rfl

theorem tags_put_buildTags (h : c.members.get? Setting.buildTags.key = some (.arr items))
    (texts : List String) (system architecture : Option String) (extra : List String) :
    (c.put .buildTags (.arr (texts.foldl withText items))).tags system architecture extra =
      c.tags system architecture (extra ++ texts) := by
  rw [tags_eq (itemTexts_of_get? (get?_put_self c .buildTags _)), tags_eq (itemTexts_of_get? h), target_put_buildTags]
  apply congrArg (Except.mapError _)
  apply Target.tags_congr
  intro a
  rw [List.mem_append, mem_map_plainText_foldl, List.mem_append, List.mem_append, or_assoc,
    or_comm (a := a ∈ texts)]

theorem exists_badVersion_of_tags (hc : c.isNormal = true) {system architecture : Option String}
    {extra : List String} {why : TagError} (h : c.tags system architecture extra = .error why) :
    ∃ e, releaseTags (c.textOf .goVersion) = .error e ∧ why = .badVersion e := by
  obtain ⟨items, hget⟩ := exists_list_of_isNormal hc (s := .buildTags) rfl
  rw [tags_eq (itemTexts_of_get? hget), Target.tags] at h
  have hversion : (c.target system architecture).version = c.textOf .goVersion := rfl
  rw [hversion] at h
  cases hreleases : releaseTags (c.textOf .goVersion) with
  | ok releases =>
    rw [hreleases] at h
    cases h
  | error e =>
    rw [hreleases] at h
    exact ⟨e, rfl, (Except.error.inj h).symm⟩

theorem isNormal_default : default.isNormal = true := by decide

/-- Setting build tags in a configuration that was read, or in the default one, does what giving them
for one run does: for every target the same tags are set, or there are none in both cases because the
release is not known. Setting them again changes nothing. -/
theorem tags_set_eq_tags_given (hc : c = default ∨ ∃ s file, c = (load s file).config)
    (raw : String) :
    ∃ c', c.edit (.set Setting.buildTags.key raw) = (.ok (), c') ∧
      c'.edit (.set Setting.buildTags.key raw) = (.ok (), c') ∧
      ∀ system architecture extra,
        c'.tags system architecture extra =
          c.tags system architecture (extra ++ splitTags raw) ∧
        ∀ why, c'.tags system architecture extra = .error why →
          ∃ e, releaseTags (c.textOf .goVersion) = .error e ∧ why = .badVersion e := by
  have hnormal : c.isNormal = true := by
    rcases hc with rfl | ⟨s, file, rfl⟩
    · exact isNormal_default
    · rw [config_load]
      exact isNormal_normalize _
  obtain ⟨items, hget⟩ := exists_list_of_isNormal hnormal (s := .buildTags) rfl
  refine ⟨_, edit_set_buildTags hget raw, ?_, fun system architecture extra => ?_⟩
  · exact edit_set_buildTags_of_mem (get?_put_self c .buildTags _) fun text htext =>
      mem_foldl_withText.2 (Or.inr ⟨text, htext, rfl⟩)
  · have htags := tags_put_buildTags hget (splitTags raw) system architecture extra
    refine ⟨htags, fun why hwhy => ?_⟩
    rw [htags] at hwhy
    exact exists_badVersion_of_tags hnormal hwhy

def untidyTags : Config :=
  ⟨[("build_tags", .arr [.str "a", .null, .str "a"]), ("go_version", .str " go1.2 ")]⟩

/-- The tags of an untidy file, which is read as it is. -/
theorem tags_set_eq_tags_given_untidyTags :
    ∃ c c' : Config, c.members.get? "build_tags" = some (.arr [.str "a", .null, .str "a"]) ∧
      (∃ s file, c = (load s file).config) ∧
      c.edit (.set "build_tags" "b,a\u3000b") = (.ok (), c') ∧
      c'.edit (.set "build_tags" "b,a\u3000b") = (.ok (), c') ∧
      c'.tags (some "ios") none [" x"] = c.tags (some "ios") none ([" x"] ++ ["b", "a", "b"]) := by
  obtain ⟨saved, hsaved⟩ : ∃ saved, save? untidyTags emptyProject none = some saved := ⟨_, rfl⟩
  have hread := readFile_of_save (by decide) (by decide) hsaved
  have hload : (load saved none).config = untidyTags.normalize := by rw [config_load, hread]
  obtain ⟨c', hset, hagain, htags⟩ := tags_set_eq_tags_given
    (Or.inr ⟨saved, none, hload.symm⟩) "b,a\u3000b"
  have hsplit : splitTags "b,a\u3000b" = ["b", "a", "b"] := by decide
  refine ⟨untidyTags.normalize, c', rfl, ⟨saved, none, hload.symm⟩, hset, hagain, ?_⟩
  rw [(htags (some "ios") none [" x"]).1, hsplit]

end ImportSurvey.Config
