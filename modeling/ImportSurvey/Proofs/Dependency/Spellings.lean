import ImportSurvey.Proofs.Dependency.Pins
import ImportSurvey.Proofs.Table
import ImportSurvey.Proofs.Text.Trim
/-!
# How the commit of a pin is spelled

A commit is written alone or in a table. Written alone, a text of blanks is no commit, and the pin
follows the newest one. A table asks first whether the text is empty and trims it afterwards, so it
keeps a text of blanks as an empty commit. The two spellings agree on every other text, and a pin
names what to fetch unless its table does this.
-/

namespace ImportSurvey.Dependency.Pin

open Text

variable {name key : String} {p : Pin} {written : Json} {members : List (String × Json)}
  {value : Option String}

/-! ## What a table gives -/

def givenText? (members : List (String × Json)) (key : String) : Option String :=
  match Table.get? members key with
  | some (.str s) => if s = "" then none else some s
  | _ => none

private theorem field_eq_ok (h : field name (.obj members) key = .ok value) :
    value = (givenText? members key).map trimmed := by
  unfold field at h
  rw [givenText?, Json.member?] at *
  cases hmember : Table.get? members key with
  | none =>
    rw [hmember] at h
    exact (Except.ok.inj h).symm
  | some member =>
    rw [hmember] at h
    cases member with
    | null => exact (Except.ok.inj h).symm
    | str s =>
      rw [← Except.ok.inj h]
      by_cases hs : s = ""
      · simp [hs]
      · simp [hs]
    | bool _ | int _ | float _ | arr _ | obj _ => cases h

/-- The pin that the texts of a table give to a name, which follows the newest commit if the table gives
neither commit nor tag. -/
def ofTexts (name : String) (members : List (String × Json)) : Pin where
  name := name
  url := (givenText? members "url").map trimmed
  commit := if givenText? members "commit" = none ∧ givenText? members "tag" = none then
    some newestCommit else (givenText? members "commit").map trimmed
  tag := (givenText? members "tag").map trimmed
  branch := (givenText? members "branch").map trimmed

theorem ofTable_eq_ok (h : ofTable name members = .ok p) : p = ofTexts name members := by
  simp only [ofTable] at h
  split at h
  · cases h
  · obtain ⟨url, hurl, h⟩ := exists_of_bind_eq_ok h
    obtain ⟨commit, hcommit, h⟩ := exists_of_bind_eq_ok h
    obtain ⟨tag, htag, h⟩ := exists_of_bind_eq_ok h
    obtain ⟨branch, hbranch, h⟩ := exists_of_bind_eq_ok h
    obtain rfl := field_eq_ok hurl
    obtain rfl := field_eq_ok hcommit
    obtain rfl := field_eq_ok htag
    obtain rfl := field_eq_ok hbranch
    rw [← Except.ok.inj h]
    simp [ofTexts]

private theorem field_of_texts (h : ∀ m ∈ members, m.2 = .null ∨ ∃ s, m.2 = .str s)
    (name key : String) :
    field name (.obj members) key = .ok ((givenText? members key).map trimmed) := by
  rw [field, givenText?, Json.member?]
  cases hmember : Table.get? members key with
  | none => rfl
  | some member =>
    rcases h _ (Table.mem_of_get? hmember) with rfl | ⟨s, rfl⟩
    · rfl
    · by_cases hs : s = ""
      · simp [hs]
      · simp [hs]

/-- A table of texts and nulls under keys that are known is accepted. -/
theorem ofTable_of_texts (hkeys : ∀ m ∈ members, m.1 ∈ keys)
    (htexts : ∀ m ∈ members, m.2 = .null ∨ ∃ s, m.2 = .str s) (name : String) :
    ofTable name members = .ok (ofTexts name members) := by
  have hknown : ((NameSet.ofList (members.map Prod.fst)).names.filter
      fun k => !keys.contains k) = [] := by
    rw [List.filter_eq_nil_iff]
    intro k hk
    obtain ⟨m, hm, rfl⟩ := List.mem_map.1 (NameSet.mem_ofList.1 hk)
    simpa using hkeys m hm
  simp only [ofTable, hknown, field_of_texts htexts]
  simp [ofTexts, bind, Except.bind, pure, Except.pure]

theorem ofTable_commit (name commit : String) :
    ofTable name [("commit", .str commit)] =
      .ok ⟨name, none, some (if commit = "" then newestCommit else trimmed commit), none, none⟩ := by
  rw [ofTable_of_texts (by simp [keys]) (by simp)]
  by_cases h : commit = ""
  · subst h
    rfl
  · simp [ofTexts, givenText?, Table.get?, h]

/-! ## The two spellings -/

theorem ofJson_of_name (hname : trimmed name ≠ "") (commit : String) :
    ofJson name (.str commit) = .ok (ofCommit name commit) := by
  simp [ofJson, hname]

theorem ofJson_table_of_name (hname : trimmed name ≠ "") (members : List (String × Json)) :
    ofJson name (.obj members) = ofTable name members := by
  simp [ofJson, hname]

/-- Alone and in a table the same text is the same commit, except for a text of blanks. -/
theorem ofCommit_eq_iff (name commit : String) :
    ofCommit name commit =
        ⟨name, none, some (if commit = "" then newestCommit else trimmed commit), none, none⟩ ↔
      commit = "" ∨ trimmed commit ≠ "" := by
  by_cases hempty : commit = ""
  · subst hempty
    exact iff_of_true rfl (Or.inl rfl)
  · by_cases hblank : trimmed commit = ""
    · simp [ofCommit, hempty, hblank, newestCommit]
    · simp [ofCommit, hempty, hblank]

/-! ## Pins that name nothing -/

def NamesVersion (p : Pin) : Prop :=
  (∃ commit, p.commit = some commit ∧ trimmed commit ≠ "") ∨ ∃ tag, p.tag = some tag

def WritesBlankCommit (written : Json) : Prop :=
  ∃ members commit, written = .obj members ∧ givenText? members "commit" = some commit ∧
    trimmed commit = "" ∧ givenText? members "tag" = none

def WritesNeither (written : Json) : Prop :=
  written = .null ∨ (∃ commit, written = .str commit ∧ trimmed commit = "") ∨
    ∃ members, written = .obj members ∧ givenText? members "commit" = none ∧
      givenText? members "tag" = none

private theorem trimmed_newestCommit : trimmed newestCommit ≠ "" := by
  decide

theorem namesVersion_of_commit {commit : String} (h : p.commit = some commit)
    (hblank : trimmed commit ≠ "") : p.NamesVersion :=
  Or.inl ⟨commit, h, hblank⟩

theorem namesVersion_ofTable (h : ofTable name members = .ok p) :
    p.NamesVersion ↔ ¬ WritesBlankCommit (.obj members) := by
  have hpin := ofTable_eq_ok h
  have htag : p.tag = (givenText? members "tag").map trimmed := congrArg Pin.tag hpin
  have hcommit := congrArg Pin.commit hpin
  rw [ofTexts] at hcommit
  cases hgivenTag : givenText? members "tag" with
  | some tag =>
    rw [hgivenTag] at htag
    refine iff_of_true (Or.inr ⟨_, htag⟩) ?_
    rintro ⟨others, commit, hmembers, -, -, hnone⟩
    obtain rfl := Json.obj.inj hmembers
    rw [hgivenTag] at hnone
    contradiction
  | none =>
    rw [hgivenTag] at htag hcommit
    cases hgiven : givenText? members "commit" with
    | none =>
      rw [hgiven, if_pos ⟨rfl, rfl⟩] at hcommit
      refine iff_of_true (namesVersion_of_commit hcommit trimmed_newestCommit) ?_
      rintro ⟨others, commit, hmembers, hsome, -⟩
      obtain rfl := Json.obj.inj hmembers
      rw [hgiven] at hsome
      contradiction
    | some commit =>
      rw [hgiven, if_neg (by simp), Option.map_some] at hcommit
      constructor
      · rintro (⟨other, hother, hblank⟩ | ⟨tag, hsome⟩) ⟨others, written, hmembers, hwritten, hempty, -⟩
        · obtain rfl := Json.obj.inj hmembers
          obtain rfl := Option.some.inj (hgiven.symm.trans hwritten)
          obtain rfl := Option.some.inj (hcommit.symm.trans hother)
          exact hblank (by rw [trimmed_trimmed, hempty])
        · rw [htag] at hsome
          contradiction
      · intro hwrites
        refine namesVersion_of_commit hcommit ?_
        rw [trimmed_trimmed]
        intro hempty
        exact hwrites ⟨members, commit, rfl, hgiven, hempty, hgivenTag⟩

theorem namesVersion_ofJson (h : ofJson name written = .ok p) :
    p.NamesVersion ↔ ¬ WritesBlankCommit written := by
  unfold ofJson at h
  split at h
  · cases h
  · split at h
    · rw [← Except.ok.inj h]
      refine iff_of_true (namesVersion_of_commit rfl trimmed_newestCommit) ?_
      rintro ⟨members, commit, hmembers, -⟩
      cases hmembers
    · rename_i commit
      rw [← Except.ok.inj h, ofCommit]
      refine iff_of_true (namesVersion_of_commit rfl ?_) ?_
      · by_cases hblank : trimmed commit = ""
        · simpa [hblank] using trimmed_newestCommit
        · simp [hblank]
      · rintro ⟨members, commit, hmembers, -⟩
        cases hmembers
    · exact namesVersion_ofTable h
    · cases h

theorem commit_of_writesNeither (h : ofJson name written = .ok p) (hneither : WritesNeither written) :
    p.commit = some newestCommit := by
  unfold ofJson at h
  split at h
  · cases h
  · rcases hneither with rfl | ⟨commit, rfl, hblank⟩ | ⟨members, rfl, hcommit, htag⟩
    · rw [← Except.ok.inj h]
    · rw [← Except.ok.inj h]
      simp [ofCommit, hblank]
    · rw [ofTable_eq_ok h, ofTexts, if_pos ⟨hcommit, htag⟩]

/-- The two spellings of a commit mean the same unless it is a text of blanks, which the table keeps
as an empty commit. So the pins of a table of pins all name what to fetch, except those that write
such a commit and no tag. -/
theorem ofJson_commit_spellings (name commit : String) (entries : List (String × Json))
    (pins : List Pin) :
    (trimmed name ≠ "" →
      ∃ p q, ofJson name (.str commit) = .ok p ∧
        ofJson name (.obj [("commit", .str commit)]) = .ok q ∧
        (p = q ↔ commit = "" ∨ trimmed commit ≠ "")) ∧
    (loadPins entries = .ok pins →
      List.Forall₂ (fun entry p => (NamesVersion p ↔ ¬ WritesBlankCommit entry.2) ∧
        (WritesNeither entry.2 → p.commit = some newestCommit)) entries pins) := by
  constructor
  · intro hname
    refine ⟨_, _, ofJson_of_name hname commit, ?_, ofCommit_eq_iff name commit⟩
    rw [ofJson_table_of_name hname, ofTable_commit]
  · intro hpins
    apply (loadPins_eq_ok_iff.1 hpins).imp
    intro entry p hp
    exact ⟨namesVersion_ofJson hp, commit_of_writesNeither hp⟩

/-- A commit with blanks around it is spelled either way, and a table of pins that writes neither
commit nor tag follows the newest commit. -/
theorem ofJson_commit_spellings_padded :
    trimmed "lib" ≠ "" ∧
      ofJson "lib" (.str " 1f2e ") = ofJson "lib" (.obj [("commit", .str " 1f2e ")]) ∧
      ∃ p, loadPins [("lib", .obj [("branch", .str "main")])] = .ok [p] ∧ NamesVersion p ∧
        p.commit = some newestCommit := by
  have hname : trimmed "lib" ≠ "" := by decide
  have hload : loadPins [("lib", .obj [("branch", .str "main")])] =
      .ok [⟨"lib", none, some newestCommit, none, some "main"⟩] := by
    decide +kernel
  obtain ⟨hspellings, hpins⟩ := ofJson_commit_spellings "lib" " 1f2e " _ _
  obtain ⟨p, q, hp, hq, heq⟩ := hspellings hname
  obtain ⟨⟨hnames, hnewest⟩, -⟩ := List.forall₂_cons.1 (hpins hload)
  refine ⟨hname, ?_, _, hload, hnames.2 ?_, hnewest (Or.inr (Or.inr ⟨_, rfl, rfl, rfl⟩))⟩
  · rw [hp, hq, heq.2 (Or.inr (by decide))]
  · rintro ⟨members, commit, hmembers, hcommit, -⟩
    obtain rfl := Json.obj.inj hmembers
    contradiction

/-- A text of blanks in a table is a commit that names nothing. -/
theorem ofJson_blank_commit_differs :
    trimmed "lib" ≠ "" ∧
      ofJson "lib" (.str " ") ≠ ofJson "lib" (.obj [("commit", .str " ")]) ∧
      ∃ p, loadPins [("lib", .obj [("commit", .str " ")])] = .ok [p] ∧ ¬ NamesVersion p := by
  have hload : loadPins [("lib", .obj [("commit", .str " ")])] =
      .ok [⟨"lib", none, some "", none, none⟩] := by
    decide +kernel
  refine ⟨by decide, by decide +kernel, _, hload, ?_⟩
  rintro (⟨commit, hcommit, hblank⟩ | ⟨tag, htag⟩)
  · exact hblank (Option.some.inj hcommit ▸ by decide)
  · contradiction

end ImportSurvey.Dependency.Pin
