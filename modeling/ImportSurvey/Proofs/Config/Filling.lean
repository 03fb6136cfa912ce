import ImportSurvey.Config.File
import ImportSurvey.Proofs.Table
/-!
# Filled-in configurations

A configuration that is filled in has every setting with a value of its shape. The keys that were
there come first and in their order, and only the values of settings that were missing or of the wrong
shape are new.
-/

namespace ImportSurvey.Config

open Workspace

variable {c : Config} {s t : Setting} {v : Json} {key : String}

theorem Setting.key_inj : s.key = t.key ↔ s = t := by
  refine ⟨fun h => ?_, fun h => by rw [h]⟩
  have hsetting := congrArg Setting.ofKey? h
  rw [Setting.ofKey?_key, Setting.ofKey?_key] at hsetting
  exact Option.some.inj hsetting

theorem Setting.eq_key_of_ofKey? (h : Setting.ofKey? key = some s) : key = s.key := by
  have hkey := List.find?_some h
  exact (eq_of_beq hkey).symm

theorem Setting.ne_key_of_ofKey? (h : Setting.ofKey? key = none) (s : Setting) : key ≠ s.key := by
  rintro rfl
  rw [Setting.ofKey?_key] at h
  contradiction

theorem get?_put (c : Config) (s : Setting) (v : Json) (key : String) :
    (c.put s v).members.get? key = if key = s.key then some v else c.members.get? key :=
  Table.get?_put c.members s.key key v

theorem isWellTyped_iff :
    c.isWellTyped s = true ↔ ∃ v, c.members.get? s.key = some v ∧ s.shape.fits v = true :=
  Option.any_eq_true _ _

theorem isNormal_iff : c.isNormal = true ↔ ∀ s, c.isWellTyped s = true := by
  rw [isNormal, List.all_eq_true]
  exact ⟨fun h s => h s (Setting.mem_all s), fun h s _ => h s⟩

theorem isWellTyped_put (hv : s.shape.fits v = true) :
    (c.put s v).isWellTyped t = true ↔ t = s ∨ c.isWellTyped t = true := by
  rw [isWellTyped, get?_put]
  by_cases hts : t = s
  · simp [hts, hv]
  · rw [if_neg fun h => hts (Setting.key_inj.1 h), ← isWellTyped, or_iff_right hts]

theorem isNormal_put (hc : c.isNormal = true) (hv : s.shape.fits v = true) :
    (c.put s v).isNormal = true :=
  isNormal_iff.2 fun t => (isWellTyped_put hv).2 (Or.inr (isNormal_iff.1 hc t))

theorem key_mem_of_isNormal (hc : c.isNormal = true) (s : Setting) : s.key ∈ c.members.keys := by
  obtain ⟨v, hget, -⟩ := isWellTyped_iff.1 (isNormal_iff.1 hc s)
  exact Table.mem_keys_iff.2 ⟨v, hget⟩

/-! ## Filling in -/

/-- A configuration that came from another by filling in the settings of a list. -/
structure FilledFrom (c : Config) (settings : List Setting) (filled : Config) : Prop where
  isWellTyped : ∀ s, filled.isWellTyped s = true ↔ s ∈ settings ∨ c.isWellTyped s = true
  get?_of_isWellTyped : ∀ s, c.isWellTyped s = true →
    filled.members.get? s.key = c.members.get? s.key
  get?_of_ne : ∀ key, (∀ s ∈ settings, key ≠ s.key) → filled.members.get? key = c.members.get? key
  keys : c.members.keys <+: filled.members.keys

theorem filledFrom_fill (c : Config) (s : Setting) : FilledFrom c [s] (c.fill s) := by
  by_cases hs : c.isWellTyped s = true
  · have hsame : c.fill s = c := if_pos hs
    rw [hsame]
    refine ⟨fun t => ⟨Or.inr, ?_⟩, fun _ _ => rfl, fun _ _ => rfl, List.prefix_refl _⟩
    rintro (hts | ht)
    · rwa [List.mem_singleton.1 hts]
    · exact ht
  · have hput : c.fill s = c.put s s.default := if_neg hs
    rw [hput]
    refine ⟨fun t => ?_, fun t ht => ?_, fun key hkey => ?_, Table.keys_prefix_put _ _ _⟩
    · rw [isWellTyped_put s.fits_default, List.mem_singleton]
    · have hts : t.key ≠ s.key := fun h => hs (Setting.key_inj.1 h ▸ ht)
      rw [get?_put, if_neg hts]
    · rw [get?_put, if_neg (hkey s List.mem_cons_self)]

theorem FilledFrom.append {settings more : List Setting} {filled last : Config}
    (h : FilledFrom c settings filled) (hmore : FilledFrom filled more last) :
    FilledFrom c (settings ++ more) last where
  isWellTyped s := by
    rw [hmore.isWellTyped, h.isWellTyped, List.mem_append, ← or_assoc, or_comm (a := s ∈ more)]
  get?_of_isWellTyped s hs := by
    rw [hmore.get?_of_isWellTyped s ((h.isWellTyped s).2 (Or.inr hs)), h.get?_of_isWellTyped s hs]
  get?_of_ne key hkey := by
    rw [hmore.get?_of_ne key fun s hs => hkey s (List.mem_append_right _ hs),
      h.get?_of_ne key fun s hs => hkey s (List.mem_append_left _ hs)]
  keys := h.keys.trans hmore.keys

theorem filledFrom_foldl (c : Config) (settings : List Setting) :
    FilledFrom c settings (settings.foldl fill c) := by
  induction settings generalizing c with
  | nil =>
    exact ⟨fun s => by simp, fun _ _ => rfl, fun _ _ => rfl, List.prefix_refl _⟩
  | cons s settings ih => exact (filledFrom_fill c s).append (ih (c.fill s))

theorem filledFrom_normalize (c : Config) : FilledFrom c Setting.all c.normalize :=
  filledFrom_foldl c Setting.all

theorem isNormal_normalize (c : Config) : c.normalize.isNormal = true :=
  isNormal_iff.2 fun s => ((filledFrom_normalize c).isWellTyped s).2 (Or.inl (Setting.mem_all s))

theorem normalize_eq_self (hc : c.isNormal = true) : c.normalize = c := by
  have hfill : ∀ settings : List Setting, settings.foldl fill c = c := by
    intro settings
    induction settings with
    | nil => rfl
    | cons s settings ih =>
      have hsame : c.fill s = c := if_pos (isNormal_iff.1 hc s)
      rw [List.foldl_cons, hsame, ih]
  exact hfill Setting.all

theorem config_load (s : Session) (file : Option Path) :
    (load s file).config = (readFile s file).1.normalize := by
  simp only [load]
  by_cases hkept : ((readFile s file).1.isNormal ||
      !s.tree.reaches (s.absolute (pathOr s file))) = true
  · rw [if_pos hkept]
  · rw [if_neg hkept]
    cases (readFile s file).1.normalize.save? s (pathOr s file) <;> simp only

end ImportSurvey.Config
