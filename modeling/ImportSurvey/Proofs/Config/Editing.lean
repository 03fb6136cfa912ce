import ImportSurvey.Proofs.Config.Filling
/-!
# Edited configurations

An edit of a configuration with every setting in place either puts a value of the right shape in the
place of one setting or fails, for reasons that lie in the edit alone, and leaves everything as it
was. So whatever edits follow the reading of a file, every setting keeps its shape, and the keys of
somebody else keep their values and all keys their order.
-/

namespace ImportSurvey.Config

open Text Platform Workspace

variable {c c' : Config} {s : Setting} {e : Edit} {err : Error} {items : List Json}

/-! ## Steps -/

private theorem outcome_store (s : Setting) (v : Json) (c : Config) :
    (store s v).outcome c = (.ok (), c.put s v) := rfl

private theorem outcome_throw (err : Error) (c : Config) :
    Editing.outcome (throw err) c = (.error err, c) := rfl

private theorem outcome_read (next : Config → Editing Unit) (c : Config) :
    Editing.outcome (getThe Config >>= next) c = (next c).outcome c := rfl

theorem outcome_bind_ok {first : Editing Unit} (h : first.outcome c = (.ok (), c'))
    (next : Unit → Editing Unit) : Editing.outcome (first >>= next) c = (next ()).outcome c' := by
  simp only [Editing.outcome] at h ⊢
  rw [ExceptT.run_bind, StateT.run_bind, h]
  rfl

/-! ## Lists -/

def withText (items : List Json) (text : String) : List Json :=
  if items.any (fun v => v.text? == some text) then items else items ++ [.str text]

private theorem outcome_addText (h : c.members.get? s.key = some (.arr items)) (text : String) :
    (addText s text).outcome c = (.ok (), c.put s (.arr (withText items text))) := by
  rw [addText, outcome_read]
  simp only [h, withText]
  by_cases htext : items.any (fun v => v.text? == some text) = true
  · have hsame : c.put s (.arr items) = c := congrArg Config.mk (Table.put_of_get? h)
    rw [if_pos htext, if_pos htext, hsame]
    rfl
  · rw [if_neg htext, if_neg htext, outcome_store]

private theorem outcome_forM_addText (h : c.members.get? s.key = some (.arr items))
    (texts : List String) :
    Editing.outcome (texts.forM (addText s)) c =
      (.ok (), c.put s (.arr (texts.foldl withText items))) := by
  induction texts generalizing c items with
  | nil =>
    have hsame : c.put s (.arr items) = c := congrArg Config.mk (Table.put_of_get? h)
    rw [List.foldl_nil, hsame]
    rfl
  | cons text texts ih =>
    have hput : (c.put s (.arr (withText items text))).members.get? s.key =
        some (.arr (withText items text)) := by
      rw [get?_put, if_pos rfl]
    have hagain : (c.put s (.arr (withText items text))).put s
        (.arr (texts.foldl withText (withText items text))) =
          c.put s (.arr (texts.foldl withText (withText items text))) :=
      congrArg Config.mk (Table.put_put _ _ _ _)
    rw [List.forM, outcome_bind_ok (outcome_addText h text), ih hput, hagain, List.foldl_cons]

theorem outcome_addTexts (h : c.members.get? s.key = some (.arr items)) (texts : List String) :
    (addTexts s texts).outcome c = (.ok (), c.put s (.arr (texts.foldl withText items))) := by
  rw [addTexts, outcome_read]
  simp only [h, Option.isNone_some, Bool.false_eq_true, if_false]
  exact outcome_forM_addText h texts

/-! ## Edits -/

def Edit.key : Edit → String
  | set key _ => key
  | unset key => key
  | exclude _ => Setting.exclude.key

def flagWords : List String :=
  ["true", "1", "yes", "on", "false", "0", "no", "off"]

/-- The reasons to refuse an edit, none of which is a matter of the configuration. -/
inductive Edit.Refused : Edit → Error → Prop
  | unknownSet {key raw : String} : Setting.ofKey? key = none →
      Refused (.set key raw) (.unknownKey key)
  | unknownUnset {key : String} : Setting.ofKey? key = none →
      Refused (.unset key) (.unknownKey key)
  | badNumber {s : Setting} {raw : String} {why : NumeralError} : s.shape = .number →
      integer? raw = .error why → Refused (.set s.key raw) (.badNumber why)
  | workersOutOfRange {s : Setting} {raw : String} {n : Int} : s.shape = .number →
      integer? raw = .ok n → n < 1 ∨ 64 < n → Refused (.set s.key raw) (.workersOutOfRange raw)
  | badFlag {s : Setting} {raw : String} : s.shape = .flag →
      String.ofList (raw.toList.map Char.toLower) ∉ flagWords →
      Refused (.set s.key raw) (.badFlag s.key raw)
  | badVersion {raw : String} {why : BadVersion} : releaseTags (trimmed raw) = .error why →
      Refused (.set Setting.goVersion.key raw) (.badVersion why)
  | emptyPlatform {s : Setting} {raw : String} : s = .system ∨ s = .architecture →
      trimmed raw = "" → Refused (.set s.key raw) (.emptyPlatform s.key)
  | tableKey {s : Setting} {raw : String} : s.shape = .table →
      Refused (.set s.key raw) (.tableKey s.key)

theorem edit_set (s : Setting) (raw : String) (c : Config) :
    c.edit (.set s.key raw) = (setSetting s raw).outcome c := by
  simp only [edit, Edit.steps, Setting.ofKey?_key]

theorem edit_unset (s : Setting) (c : Config) :
    c.edit (.unset s.key) = (.ok (), c.put s s.default) := by
  simp only [edit, Edit.steps, Setting.ofKey?_key, outcome_store]

theorem edit_stores {raw : String} {read : Except Error Json} {v : Json}
    (hset : setSetting s raw = (do store s (← read))) (hread : read = .ok v) (c : Config) :
    c.edit (.set s.key raw) = (.ok (), c.put s v) := by
  rw [edit_set, hset, hread]
  rfl

theorem edit_fails {raw : String} {read : Except Error Json}
    (hset : setSetting s raw = (do store s (← read))) (hread : read = .error err) (c : Config) :
    c.edit (.set s.key raw) = (.error err, c) := by
  rw [edit_set, hset, hread]
  rfl

theorem readFlag_eq_error {raw : String}
    (h : String.ofList (raw.toList.map Char.toLower) ∉ flagWords) (key : String) :
    readFlag key raw = .error (.badFlag key raw) := by
  simp only [flagWords, List.mem_cons, List.not_mem_nil, or_false, not_or] at h
  simp [readFlag, h]

/-- A refused edit fails for the reason of its refusal and leaves everything as it was. -/
theorem edit_of_refused (h : e.Refused err) (c : Config) : c.edit e = (.error err, c) := by
  cases h with
  | unknownSet hkey => simp only [edit, Edit.steps, hkey, outcome_throw]
  | unknownUnset hkey => simp only [edit, Edit.steps, hkey, outcome_throw]
  | @badNumber s raw why hs hraw =>
    have hread : readNumber raw = .error (.badNumber why) := by simp only [readNumber, hraw]
    exact edit_fails (by rw [setSetting, hs]) hread c
  | @workersOutOfRange s raw n hs hraw hrange =>
    have hout : ¬(1 ≤ n ∧ n ≤ mostWorkers) := by
      rw [mostWorkers]
      omega
    have hread : readNumber raw = .error (.workersOutOfRange raw) := by
      simp only [readNumber, hraw, Bool.and_eq_true, decide_eq_true_eq, if_neg hout]
    exact edit_fails (by rw [setSetting, hs]) hread c
  | @badFlag s raw hs hraw =>
    exact edit_fails (by rw [setSetting, hs]) (readFlag_eq_error hraw s.key) c
  | @badVersion raw why hraw =>
    have hread : readText .goVersion raw = .error (.badVersion why) := by simp only [readText, hraw]
    exact edit_fails rfl hread c
  | @emptyPlatform s raw hs hraw =>
    have hread : readText s raw = .error (.emptyPlatform s.key) := by
      rcases hs with rfl | rfl
      all_goals simp only [readText, hraw, beq_self_eq_true, if_true]
    have hset : setSetting s raw = (do store s (← readText s raw)) := by
      rcases hs with rfl | rfl <;> rfl
    exact edit_fails hset hread c
  | tableKey hs => simp only [edit_set, setSetting, hs, outcome_throw]

/-! ## Values that are read -/

private theorem readNumber_cases (hs : s.shape = .number) (raw : String) :
    (∃ v, s.shape.fits v = true ∧ readNumber raw = .ok v) ∨
      ∃ err, (Edit.set s.key raw).Refused err := by
  cases hraw : integer? raw with
  | error why => exact Or.inr ⟨_, .badNumber hs hraw⟩
  | ok n =>
    by_cases hrange : 1 ≤ n ∧ n ≤ mostWorkers
    · refine Or.inl ⟨.int n, by rw [hs]; rfl, ?_⟩
      simp only [readNumber, hraw, Bool.and_eq_true, decide_eq_true_eq, if_pos hrange]
    · refine Or.inr ⟨_, .workersOutOfRange hs hraw ?_⟩
      rw [mostWorkers] at hrange
      omega

private theorem readFlag_cases (hs : s.shape = .flag) (raw : String) :
    (∃ v, s.shape.fits v = true ∧ readFlag s.key raw = .ok v) ∨
      ∃ err, (Edit.set s.key raw).Refused err := by
  by_cases hraw : String.ofList (raw.toList.map Char.toLower) ∈ flagWords
  · left
    simp only [readFlag, hs]
    by_cases htrue : ["true", "1", "yes", "on"].contains
        (String.ofList (raw.toList.map Char.toLower)) = true
    · exact ⟨.bool true, rfl, by rw [if_pos htrue]⟩
    · have hfalse : ["false", "0", "no", "off"].contains
          (String.ofList (raw.toList.map Char.toLower)) = true := by
        rw [List.contains_iff_mem] at htrue ⊢
        have hwords : flagWords = ["true", "1", "yes", "on"] ++ ["false", "0", "no", "off"] := rfl
        rw [hwords, List.mem_append] at hraw
        exact hraw.resolve_left htrue
      exact ⟨.bool false, rfl, by rw [if_neg htrue, if_pos hfalse]⟩
  · exact Or.inr ⟨_, .badFlag hs hraw⟩

private theorem readText_cases (hs : s.shape = .text) (raw : String) :
    (∃ v, s.shape.fits v = true ∧ readText s raw = .ok v) ∨
      ∃ err, (Edit.set s.key raw).Refused err := by
  have hplatform : s = .system ∨ s = .architecture →
      (∃ v, Shape.text.fits v = true ∧ (if trimmed raw == "" then .error (.emptyPlatform s.key)
        else .ok (.str (trimmed raw)) : Except Error Json) = .ok v) ∨
      ∃ err, (Edit.set s.key raw).Refused err := by
    intro hs
    by_cases hempty : trimmed raw = ""
    · exact Or.inr ⟨_, .emptyPlatform hs hempty⟩
    · exact Or.inl ⟨.str (trimmed raw), rfl, if_neg (by simpa using hempty)⟩
  rw [hs]
  cases s with
  | system => exact hplatform (Or.inl rfl)
  | architecture => exact hplatform (Or.inr rfl)
  | goVersion =>
    cases hraw : releaseTags (trimmed raw) with
    | error why => exact Or.inr ⟨_, .badVersion hraw⟩
    | ok tags => exact Or.inl ⟨.str (trimmed raw), rfl, by simp only [readText, hraw]⟩
  | _ => exact Or.inl ⟨.str (trimmed raw), rfl, rfl⟩

/-- An edit of a configuration with every setting in place is refused or puts a value of the right
shape in the place of one setting. -/
theorem edit_cases (hc : c.isNormal = true) (e : Edit) :
    (∃ err, e.Refused err) ∨
      ∃ s v, e.key = s.key ∧ s.shape.fits v = true ∧ c.edit e = (.ok (), c.put s v) := by
  have hlist : ∀ s : Setting, s.shape = .list → ∃ items, c.members.get? s.key = some (.arr items) := by
    intro s hs
    obtain ⟨v, hget, hfits⟩ := isWellTyped_iff.1 (isNormal_iff.1 hc s)
    rw [hs] at hfits
    cases v with
    | arr items => exact ⟨items, hget⟩
    | _ => cases hfits
  cases e with
  | set key raw =>
    cases hkey : Setting.ofKey? key with
    | none => exact Or.inl ⟨_, .unknownSet hkey⟩
    | some s =>
      obtain rfl := Setting.eq_key_of_ofKey? hkey
      have hread : ∀ read : Except Error Json, setSetting s raw = (do store s (← read)) →
          ((∃ v, s.shape.fits v = true ∧ read = .ok v) ∨
            ∃ err, (Edit.set s.key raw).Refused err) →
          (∃ err, (Edit.set s.key raw).Refused err) ∨
            ∃ t v, (Edit.set s.key raw).key = t.key ∧ t.shape.fits v = true ∧
              c.edit (.set s.key raw) = (.ok (), c.put t v) := by
        rintro read hset (⟨v, hfits, hread⟩ | hrefused)
        · exact Or.inr ⟨s, v, rfl, hfits, edit_stores hset hread c⟩
        · exact Or.inl hrefused
      cases hs : s.shape with
      | number => exact hread _ (by rw [setSetting, hs]) (readNumber_cases hs raw)
      | flag => exact hread _ (by rw [setSetting, hs]) (readFlag_cases hs raw)
      | text => exact hread _ (by rw [setSetting, hs]) (readText_cases hs raw)
      | list =>
        obtain ⟨items, hget⟩ := hlist s hs
        let texts := if s = .buildTags then splitTags raw else [raw]
        refine Or.inr ⟨s, .arr (texts.foldl withText items), rfl, by rw [hs]; rfl, ?_⟩
        rw [edit_set, setSetting, hs]
        exact outcome_addTexts hget texts
      | table => exact Or.inl ⟨_, .tableKey hs⟩
  | unset key =>
    cases hkey : Setting.ofKey? key with
    | none => exact Or.inl ⟨_, .unknownUnset hkey⟩
    | some s =>
      obtain rfl := Setting.eq_key_of_ofKey? hkey
      exact Or.inr ⟨s, s.default, rfl, s.fits_default, edit_unset s c⟩
  | exclude pattern =>
    obtain ⟨items, hget⟩ := hlist .exclude rfl
    exact Or.inr ⟨.exclude, _, rfl, rfl, outcome_addTexts hget _⟩

/-! ## Runs of edits -/

def after (c : Config) (edits : List Edit) : Config :=
  edits.foldl (fun c e => (c.edit e).2) c

/-- A configuration with every setting in place that differs from another one, which holds the same
keys in the same order, in the values of settings only. -/
structure SameBut (c c' : Config) : Prop where
  isNormal : c'.isNormal = true
  keys : c'.members.keys = c.members.keys
  get?_of_ne : ∀ key, Setting.ofKey? key = none → c'.members.get? key = c.members.get? key

theorem sameBut_edit (hc : c.isNormal = true) (e : Edit) : SameBut c (c.edit e).2 := by
  rcases edit_cases hc e with ⟨err, hrefused⟩ | ⟨s, v, -, hv, hedit⟩
  · rw [edit_of_refused hrefused]
    exact ⟨hc, rfl, fun _ _ => rfl⟩
  · rw [hedit]
    refine ⟨isNormal_put hc hv, Table.keys_put_of_mem (key_mem_of_isNormal hc s) v, fun key hkey => ?_⟩
    rw [get?_put, if_neg (Setting.ne_key_of_ofKey? hkey s)]

theorem sameBut_after (hc : c.isNormal = true) (edits : List Edit) : SameBut c (c.after edits) := by
  induction edits generalizing c with
  | nil => exact ⟨hc, rfl, fun _ _ => rfl⟩
  | cons e edits ih =>
    have hfirst := sameBut_edit hc e
    have hrest := ih hfirst.isNormal
    exact ⟨hrest.isNormal, hrest.keys.trans hfirst.keys, fun key hkey =>
      (hrest.get?_of_ne key hkey).trans (hfirst.get?_of_ne key hkey)⟩

/-- What an edit of a configuration does at most. -/
structure EditsOwnKey (c : Config) (e : Edit) : Prop where
  others : ∀ key, key ≠ e.key → (c.edit e).2.members.get? key = c.members.get? key
  fails : ∀ err, (c.edit e).1 = .error err ↔ e.Refused err
  unchanged : ∀ err, (c.edit e).1 = .error err → (c.edit e).2 = c

theorem editsOwnKey (hc : c.isNormal = true) (e : Edit) : EditsOwnKey c e := by
  rcases edit_cases hc e with ⟨err, hrefused⟩ | ⟨s, v, hkey, hv, hedit⟩
  · have hedit := edit_of_refused hrefused c
    refine ⟨fun _ _ => by rw [hedit], fun other => ⟨fun h => ?_, fun h => ?_⟩, fun _ _ => by rw [hedit]⟩
    · rw [hedit] at h
      rwa [← Except.error.inj h]
    · rw [edit_of_refused h]
  · refine ⟨fun key hne => ?_, fun err => ⟨fun h => ?_, fun h => ?_⟩, fun err h => ?_⟩
    · rw [hedit, get?_put, if_neg (hkey ▸ hne)]
    · rw [hedit] at h
      cases h
    · rw [edit_of_refused h]
    · rw [hedit] at h
      cases h

/-- After a file was read and whatever edits, every setting is in place with a value of its shape, the
keys that are no settings have the values of the file, and all keys stand in the order in which they
were read, those of the file first. A further edit changes the value of its own key only, and if it
fails, which is settled by the edit alone, it changes nothing. -/
theorem edits_keep_settings (s : Session) (file : Option Path) (edits : List Edit) :
    (∀ t : Setting, ∃ v, ((load s file).config.after edits).members.get? t.key = some v ∧
      t.shape.fits v = true) ∧
    (∀ key, Setting.ofKey? key = none →
      ((load s file).config.after edits).members.get? key = (load s file).config.members.get? key ∧
      (load s file).config.members.get? key = (readFile s file).1.members.get? key) ∧
    ((load s file).config.after edits).members.keys = (load s file).config.members.keys ∧
    (readFile s file).1.members.keys <+: (load s file).config.members.keys ∧
    ∀ e, EditsOwnKey ((load s file).config.after edits) e := by
  have hfilled := filledFrom_normalize (readFile s file).1
  have hnormal : (load s file).config.isNormal = true := by
    rw [config_load]
    exact isNormal_normalize _
  have hafter := sameBut_after hnormal edits
  refine ⟨fun t => isWellTyped_iff.1 (isNormal_iff.1 hafter.isNormal t), fun key hkey => ⟨?_, ?_⟩,
    hafter.keys, ?_, editsOwnKey hafter.isNormal⟩
  · exact hafter.get?_of_ne key hkey
  · rw [config_load]
    exact hfilled.get?_of_ne key fun t _ => Setting.ne_key_of_ofKey? hkey t
  · rw [config_load]
    exact hfilled.keys

end ImportSurvey.Config
