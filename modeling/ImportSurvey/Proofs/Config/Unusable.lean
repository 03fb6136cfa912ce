import ImportSurvey.Proofs.Config.File
import ImportSurvey.Proofs.Json.NoValue
import ImportSurvey.Proofs.Workspace.Overwriting
/-!
# Files that are no configuration

A file whose bytes are no text, or whose text is no object, counts as an empty one. So reading it gives
the default configuration, and since that is not what the file holds, the file is overwritten with it:
what could not be read is lost.
-/

namespace ImportSurvey.Config

open Text Workspace

variable {s : Session} {file : Option Path} {bytes : List UInt8}

/-- The ways in which the bytes of a file are no configuration: they are no text, the text begins with
a byte order mark, it is no value or goes on behind one, or the value is no object. -/
inductive IsUnusable (bytes : List UInt8) : Prop
  | malformedBytes : decodeStrict? bytes = none → IsUnusable bytes
  | byteOrderMark {cs : List Char} : decodeStrict? bytes = some ('\ufeff' :: cs) → IsUnusable bytes
  | malformedText {cs : List Char} : decodeStrict? bytes = some cs →
      Json.parse? (foldLineEnds cs) = none → IsUnusable bytes
  | noObject {cs : List Char} {v : Json} : decodeStrict? bytes = some cs →
      Json.parse? (foldLineEnds cs) = some v → (∀ members, v ≠ .obj members) → IsUnusable bytes

theorem isUnusable_iff :
    IsUnusable bytes ↔ ∀ members, readBytes (some bytes) ≠ .ok (.obj members) := by
  constructor
  · rintro (hbytes | @⟨cs, hbytes⟩ | ⟨hbytes, htext⟩ | ⟨hbytes, hvalue, hobject⟩) members
    · simp [readBytes, hbytes]
    · have hfold : foldLineEnds ('\ufeff' :: cs) = '\ufeff' :: foldLineEnds cs := by
        simp [foldLineEnds]
      simp [readBytes, hbytes, hfold, Json.parse?_eq_none (c := '\ufeff') (by decide)]
    · simp [readBytes, hbytes, htext]
    · simpa [readBytes, hbytes, hvalue] using hobject members
  · intro h
    cases hbytes : decodeStrict? bytes with
    | none => exact .malformedBytes hbytes
    | some cs =>
      cases hvalue : Json.parse? (foldLineEnds cs) with
      | none => exact .malformedText hbytes hvalue
      | some v =>
        refine .noObject hbytes hvalue fun members hv => h members ?_
        simp only [readBytes, hbytes, hvalue, hv]

theorem readFile_of_isUnusable
    (hfile : s.tree.find? (s.absolute (pathOr s file)) = some (.file (some bytes)))
    (h : IsUnusable bytes) :
    ∃ warning, readFile s file = (⟨[]⟩, [warning]) ∧ warning.isWarning = true := by
  have hreaches := Directory.reaches_of_find? hfile
  have hbytes : s.tree.bytes? (s.absolute (pathOr s file)) = some bytes := by
    rw [Directory.bytes?, hfile]
  simp only [readFile, hreaches, hbytes, Bool.not_true, Bool.false_eq_true, if_false]
  cases hread : readBytes (some bytes) with
  | error why => exact ⟨_, rfl, rfl⟩
  | ok v =>
    cases v with
    | obj members => exact absurd hread (isUnusable_iff.1 h members)
    | _ => exact ⟨_, rfl, rfl⟩

theorem load_of_isUnusable
    (hfile : s.tree.find? (s.absolute (pathOr s file)) = some (.file (some bytes)))
    (h : IsUnusable bytes) :
    ∃ saved warning, load s file = ⟨default, saved, [warning]⟩ ∧ warning.isWarning = true ∧
      saved.tree.bytes? (s.absolute (pathOr s file)) = some (encode default.fileText.toList) := by
  obtain ⟨warning, hread, hwarning⟩ := readFile_of_isUnusable hfile h
  obtain ⟨saved, hsaved⟩ : ∃ saved, default.save? s file = some saved :=
    Session.exists_writeText? hfile default.fileText
  have hreaches := Directory.reaches_of_find? hfile
  -- filling in the defaults counts as a change of what was read, so they are written
  have hnormalize : normalize ⟨[]⟩ = default := rfl
  have hnormal : isNormal ⟨[]⟩ = false := by decide
  have hsave : default.save? s (some (pathOr s file)) = some saved := hsaved
  refine ⟨saved, warning, ?_, hwarning, ?_⟩
  · simp only [load, hread, hnormalize, hnormal, hreaches, hsave, Bool.not_true, Bool.or_self,
      Bool.false_eq_true, if_false]
  · obtain ⟨tree, rfl, -⟩ := Session.writeText?_spec hsaved
    exact (bytes_of_save hsaved).2.2

theorem IsUnusable.ne_fileText (h : IsUnusable bytes) : bytes ≠ encode default.fileText.toList := by
  intro heq
  rw [heq] at h
  exact isUnusable_iff.1 h _ (readBytes_fileText (by decide) (by decide))

/-- Reading a file that is no configuration gives exactly the default one, and one warning. The file
does not keep its bytes: afterwards it holds the text of the default configuration, which none of the
bytes that cannot be read is. -/
theorem load_overwrites_unusable
    (hfile : s.tree.find? (s.absolute (pathOr s file)) = some (.file (some bytes)))
    (h : IsUnusable bytes) :
    (load s file).config = default ∧
      (∃ warning, (load s file).remarks = [warning] ∧ warning.isWarning = true) ∧
      (load s file).session.tree.bytes? (s.absolute (pathOr s file)) =
        some (encode default.fileText.toList) ∧
      (load s file).session.tree.bytes? (s.absolute (pathOr s file)) ≠ some bytes := by
  obtain ⟨saved, warning, hload, hwarning, hbytes⟩ := load_of_isUnusable hfile h
  rw [hload]
  exact ⟨rfl, ⟨warning, rfl, hwarning⟩, hbytes, fun hkept =>
    h.ne_fileText (Option.some.inj (hkept.symm.trans hbytes))⟩

/-! ## Two files -/

def projectWith (bytes : List UInt8) : Session :=
  .start (.sub "project" (.sub ".gopherdeps" (.file "config.json" (some bytes) .empty) .empty) .empty)
    ["project"] none Session.usualCapacity

theorem find?_projectWith (bytes : List UInt8) :
    (projectWith bytes).tree.find? ((projectWith bytes).absolute (pathOr (projectWith bytes) none)) =
      some (.file (some bytes)) := rfl

def markedBytes : List UInt8 :=
  [0xef, 0xbb, 0xbf, 0x7b, 0x7d]

theorem load_overwrites_unusable_markedBytes :
    IsUnusable markedBytes ∧ (load (projectWith markedBytes) none).config = default ∧
      (load (projectWith markedBytes) none).session.tree.bytes?
        (.parse "/project/.gopherdeps/config.json") = some (encode default.fileText.toList) := by
  have hbytes : decodeStrict? markedBytes = some ['\ufeff', '\x7b', '\x7d'] := by decide +kernel
  have h : IsUnusable markedBytes := .byteOrderMark hbytes
  obtain ⟨hconfig, -, hoverwritten, -⟩ := load_overwrites_unusable (find?_projectWith markedBytes) h
  exact ⟨h, hconfig, hoverwritten⟩

def commentedPins : String :=
  "// pins\n\x7b\"dependencies\": \x7b\"github.com/a/b\": \"v1.0.0\"\x7d\x7d\n"

/-- The bytes of a file that cannot be read do not stay: the pins are lost. -/
theorem load_loses_commentedPins :
    IsUnusable (encode commentedPins.toList) ∧
      (projectWith (encode commentedPins.toList)).tree.bytes?
        (.parse "/project/.gopherdeps/config.json") = some (encode commentedPins.toList) ∧
      (load (projectWith (encode commentedPins.toList)) none).session.tree.bytes?
        (.parse "/project/.gopherdeps/config.json") ≠ some (encode commentedPins.toList) := by
  have hplain : commentedPins.toList.all (fun c => c.toNat < 0x80 && c != '\r') = true := by decide
  have hchar : ∀ c ∈ commentedPins.toList, c.toNat < 0x80 ∧ c ≠ '\r' := by
    simpa using List.all_eq_true.1 hplain
  have hbytes : decodeStrict? (encode commentedPins.toList) = some commentedPins.toList :=
    decodeStrict?_encode fun c hc => (hchar c hc).1
  have htext : Json.parse? (foldLineEnds commentedPins.toList) = none := by
    rw [foldLineEnds_eq_self fun hmem => (hchar _ hmem).2 rfl]
    exact Json.parse?_eq_none (c := '/') (by decide) _
  have h : IsUnusable (encode commentedPins.toList) := .malformedText hbytes htext
  obtain ⟨saved, warning, hload, -, hafter⟩ := load_of_isUnusable (find?_projectWith _) h
  refine ⟨h, rfl, fun hkept => h.ne_fileText ?_⟩
  rw [hload] at hkept
  exact Option.some.inj (hkept.symm.trans hafter)

end ImportSurvey.Config
