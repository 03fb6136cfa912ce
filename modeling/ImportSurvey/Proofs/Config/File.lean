import ImportSurvey.Proofs.Config.Filling
import ImportSurvey.Proofs.Json.Plain
import ImportSurvey.Proofs.Json.RoundTrip
import ImportSurvey.Proofs.Json.Spelled
import ImportSurvey.Proofs.Text.Utf8
import ImportSurvey.Proofs.Workspace.Storing
/-!
# Configuration files read back

A configuration that was written is read back as it was, with its keys in their order, and reading
leaves the file alone then. A file that reading had to correct is correct after that, so reading it
once more gives the same configuration and changes nothing.
-/

namespace ImportSurvey.Config

open Text Workspace

variable {c : Config} {s saved : Session} {file : Option Path} {t : Setting} {v : Json}

/-! ## The text of the file -/

private theorem toList_fileText (c : Config) :
    c.fileText.toList = Json.chars .lines 0 c.toJson ++ ['\n'] := by
  rw [fileText, Json.linesText, String.toList_append, String.toList_ofList]
  rfl

private theorem plain_fileText (hfloat : c.toJson.isFloatFree = true) :
    Json.Plain c.fileText.toList := by
  rw [toList_fileText, Json.plain_append]
  exact ⟨Json.plain_chars hfloat 0, rfl⟩

theorem readBytes_fileText (hfloat : c.toJson.isFloatFree = true)
    (hkeys : c.toJson.hasDistinctKeys = true) :
    readBytes (some (encode c.fileText.toList)) = .ok c.toJson := by
  have hplain := List.all_eq_true.1 (plain_fileText hfloat)
  have hascii : ∀ d ∈ c.fileText.toList, d.toNat < 0x80 := by
    intro d hd
    have hd := hplain d hd
    simp only [Json.isPlain, Bool.or_eq_true, beq_iff_eq, Bool.and_eq_true, decide_eq_true_eq] at hd
    rcases hd with rfl | hd
    · decide
    · omega
  have hreturn : '\r' ∉ c.fileText.toList := fun hmem => absurd (hplain _ hmem) (by decide)
  have hparse : Json.parse? c.fileText.toList = some c.toJson := by
    rw [toList_fileText]
    exact Json.parse?_chars Json.Layout.isBlank_lines hfloat hkeys 0 (List.forall_mem_singleton.2 rfl)
  simp only [readBytes, decodeStrict?_encode hascii, foldLineEnds_eq_self hreturn, hparse]

/-! ## Written configurations -/

theorem bytes_of_save (h : c.save? s file = some saved) :
    pathOr saved file = pathOr s file ∧
      saved.tree.reaches (saved.absolute (pathOr saved file)) = true ∧
      saved.tree.bytes? (saved.absolute (pathOr saved file)) = some (encode c.fileText.toList) := by
  obtain ⟨tree, rfl, hfind⟩ := Session.writeText?_spec h
  have hpath : pathOr { s with tree := tree } file = pathOr s file := rfl
  have habsolute : ∀ p, Session.absolute { s with tree := tree } p = s.absolute p := fun _ => rfl
  refine ⟨hpath, ?_, ?_⟩
  · rw [hpath, habsolute, Directory.reaches, hfind]
  · rw [hpath, habsolute, Directory.bytes?, hfind]

theorem readFile_of_save (hfloat : c.toJson.isFloatFree = true)
    (hkeys : c.toJson.hasDistinctKeys = true) (h : c.save? s file = some saved) :
    readFile saved file = (c, []) := by
  obtain ⟨-, hreaches, hbytes⟩ := bytes_of_save h
  simp only [readFile, hreaches, hbytes, readBytes_fileText hfloat hkeys, toJson, Bool.not_true,
    Bool.false_eq_true, if_false]

theorem load_of_isNormal (h : (readFile s file).1.isNormal = true) :
    load s file = ⟨(readFile s file).1, s, (readFile s file).2⟩ := by
  simp only [load, h, Bool.true_or, if_true, normalize_eq_self h]

theorem load_of_save (hc : c.isNormal = true) (hfloat : c.toJson.isFloatFree = true)
    (hkeys : c.toJson.hasDistinctKeys = true) (h : c.save? s file = some saved) :
    load saved file = ⟨c, saved, []⟩ := by
  have hread := readFile_of_save hfloat hkeys h
  rw [load_of_isNormal (by rw [hread]; exact hc), hread]

/-! ## Corrected configurations -/

/-- What is true of a configuration, and stays true when a setting gets its default, is true after
filling in. -/
theorem normalize_induction {p : Config → Prop} (h : p c)
    (hput : ∀ c t, p c → p (c.put t t.default)) : p c.normalize := by
  have hfill : ∀ settings : List Setting, ∀ c, p c → p (settings.foldl fill c) := by
    intro settings
    induction settings with
    | nil => exact fun c hc => hc
    | cons t settings ih =>
      intro c hc
      rw [List.foldl_cons]
      apply ih
      rw [fill]
      split
      · exact hc
      · exact hput c t hc
  exact hfill Setting.all c h

private theorem isFloatFree_put (h : c.toJson.isFloatFree = true) (hv : v.isFloatFree = true) :
    (c.put t v).toJson.isFloatFree = true := by
  refine Json.isFloatFree_obj.2 fun e he => ?_
  rcases Table.mem_put he with rfl | he
  · exact hv
  · exact Json.isFloatFree_obj.1 h e he

private theorem hasDistinctKeys_put (h : c.toJson.hasDistinctKeys = true)
    (hv : v.hasDistinctKeys = true) :
    (c.put t v).toJson.hasDistinctKeys = true := by
  obtain ⟨hkeys, hmembers⟩ := Json.hasDistinctKeys_obj.1 h
  refine Json.hasDistinctKeys_obj.2 ⟨Table.nodup_keys_put hkeys _ _, fun e he => ?_⟩
  rcases Table.mem_put he with rfl | he
  · exact hv
  · exact hmembers e he

theorem isFloatFree_normalize (h : c.toJson.isFloatFree = true) :
    c.normalize.toJson.isFloatFree = true :=
  normalize_induction (p := fun c => c.toJson.isFloatFree = true) h fun c t hc =>
    isFloatFree_put hc (by cases t <;> decide)

theorem hasDistinctKeys_normalize (h : c.toJson.hasDistinctKeys = true) :
    c.normalize.toJson.hasDistinctKeys = true :=
  normalize_induction (p := fun c => c.toJson.hasDistinctKeys = true) h fun c t hc =>
    hasDistinctKeys_put hc (by cases t <;> decide)

theorem hasDistinctKeys_of_readBytes {bytes : Option (List UInt8)} (h : readBytes bytes = .ok v) :
    v.hasDistinctKeys = true := by
  unfold readBytes at h
  split at h
  · contradiction
  · split at h
    · contradiction
    · split at h
      · contradiction
      · rename_i hparse
        rw [← Except.ok.inj h]
        exact Json.hasDistinctKeys_of_parse hparse

theorem hasDistinctKeys_readFile (s : Session) (file : Option Path) :
    (readFile s file).1.toJson.hasDistinctKeys = true := by
  have hempty : (toJson ⟨[]⟩).hasDistinctKeys = true := by decide
  simp only [readFile]
  split
  · exact hempty
  · split
    · exact hempty
    · rename_i members hread
      exact hasDistinctKeys_of_readBytes hread
    · exact hempty

/-- Reading leaves everything as it is, or writes the configuration that it gives. -/
theorem session_load (s : Session) (file : Option Path) :
    (load s file).session = s ∨
      (readFile s file).1.normalize.save? s file = some (load s file).session := by
  simp only [load]
  by_cases hkept : ((readFile s file).1.isNormal ||
      !s.tree.reaches (s.absolute (pathOr s file))) = true
  · rw [if_pos hkept]
    exact Or.inl rfl
  · rw [if_neg hkept]
    have hpath : (readFile s file).1.normalize.save? s (some (pathOr s file)) =
        (readFile s file).1.normalize.save? s file := rfl
    rw [hpath]
    cases hsave : (readFile s file).1.normalize.save? s file with
    | none => exact Or.inl rfl
    | some saved => exact Or.inr rfl

theorem load_load (h : (readFile s file).1.toJson.isFloatFree = true) :
    (load (load s file).session file).config = (load s file).config ∧
      (load (load s file).session file).session = (load s file).session := by
  rcases session_load s file with hsame | hsaved
  · rw [hsame]
    exact ⟨rfl, hsame⟩
  · have hread := load_of_save (isNormal_normalize _) (isFloatFree_normalize h)
      (hasDistinctKeys_normalize (hasDistinctKeys_readFile s file)) hsaved
    rw [hread]
    dsimp only
    exact ⟨(config_load s file).symm, rfl⟩

/-- A configuration that has every setting in place, no number with a fraction or an exponent and no
key twice is read back from the file that was written for it, and the file is left as it was written.
Whatever a file holds without such numbers, reading it twice is reading it once. -/
theorem files_read_back (s : Session) (file : Option Path) :
    (∀ c saved, c.isNormal = true → c.toJson.isFloatFree = true →
      c.toJson.hasDistinctKeys = true → c.save? s file = some saved →
        load saved file = ⟨c, saved, []⟩ ∧
        saved.tree.bytes? (saved.absolute (pathOr saved file)) =
          some (encode c.fileText.toList)) ∧
    ((readFile s file).1.toJson.isFloatFree = true →
      (load (load s file).session file).config = (load s file).config ∧
      (load (load s file).session file).session = (load s file).session) :=
  ⟨fun _ _ hc hfloat hkeys hsave =>
    ⟨load_of_save hc hfloat hkeys hsave, (bytes_of_save hsave).2.2⟩, load_load⟩

def emptyProject : Session :=
  .start (.sub "project" .empty .empty) ["project"] none Session.usualCapacity

def foreignKey : String × Json :=
  ("naïve", .obj [("", .arr [.null, .int (-3), .bool false, .str "a\"\n𝒳"]), ("b", .obj [])])

/-- Foreign keys come back, and so does what a file without settings is filled in with. -/
theorem files_read_back_foreignKey :
    (∃ saved, save? ⟨foreignKey :: default.members⟩ emptyProject none = some saved ∧
      load saved none = ⟨⟨foreignKey :: default.members⟩, saved, []⟩) ∧
    ∃ saved, save? ⟨[("scan_workers", .bool true), foreignKey]⟩ emptyProject none = some saved ∧
      (load (load saved none).session none).session = (load saved none).session := by
  have hsave : ∀ c, ∃ saved, save? c emptyProject none = some saved := fun c => ⟨_, rfl⟩
  obtain ⟨first, hfirst⟩ := hsave ⟨foreignKey :: default.members⟩
  obtain ⟨second, hsecond⟩ := hsave ⟨[("scan_workers", .bool true), foreignKey]⟩
  have hread := readFile_of_save (by decide) (by decide) hsecond
  exact ⟨⟨first, hfirst, ((files_read_back emptyProject none).1 _ first (by decide) (by decide)
      (by decide) hfirst).1⟩,
    second, hsecond, ((files_read_back second none).2 (by rw [hread]; decide)).2⟩

end ImportSurvey.Config
