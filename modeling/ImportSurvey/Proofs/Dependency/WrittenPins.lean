import ImportSurvey.Proofs.Dependency.Spellings
/-!
# Pins written and read

A pin that was read has trimmed texts in its fields, none of them empty, and a commit or a tag, unless
its table holds a text of blanks. Such a pin, written as a table of the fields that it has, reads back
as itself. A name and a commit with an at sign between them are read as if they were given apart, and a
table of pins is read entry by entry, up to the first that is refused.
-/

namespace ImportSurvey.Dependency

open Text

variable {name commit : String} {written : Json} {members entries : List (String × Json)}
  {p : Pin} {pins : List Pin} {value : Option String} {e : PinError}

namespace Pin

/-! ## Pins as tables -/

def slots (p : Pin) : Table String (Option String) :=
  [("url", p.url), ("commit", p.commit), ("tag", p.tag), ("branch", p.branch)]

def table (p : Pin) : List (String × Json) :=
  p.fields.map fun f => (f.1, .str f.2)

private theorem fields_eq (p : Pin) : p.fields = p.slots.filterMap fun e => e.2.map (e.1, ·) := rfl

theorem key_mem_of_mem_table {m : String × Json} (h : m ∈ p.table) : m.1 ∈ keys := by
  obtain ⟨f, hf, rfl⟩ := List.mem_map.1 h
  rw [fields_eq] at hf
  obtain ⟨e, he, hvalue⟩ := List.mem_filterMap.1 hf
  obtain ⟨s, -, rfl⟩ := Option.map_eq_some_iff.1 hvalue
  exact List.mem_map_of_mem (f := Prod.fst) he

theorem exists_text_of_mem_table {m : String × Json} (h : m ∈ p.table) :
    ∃ s, m.2 = .str s := by
  obtain ⟨f, -, rfl⟩ := List.mem_map.1 h
  exact ⟨f.2, rfl⟩

/-- A field that is absent, or a text that is not empty and that trimming leaves as it is. -/
def IsTrim (value : Option String) : Prop :=
  ∀ s, value = some s → s ≠ "" ∧ trimmed s = s

theorem IsTrim.map_trimmed (h : IsTrim value) : value.map trimmed = value := by
  cases value with
  | none => rfl
  | some s => rw [Option.map_some, (h s rfl).2]

structure IsTidy (p : Pin) : Prop where
  name : trimmed p.name ≠ ""
  fields : ∀ e ∈ p.slots, IsTrim e.2
  tracks : p.commit = none → p.tag ≠ none

theorem givenText?_table {key : String} (h : (key, value) ∈ p.slots) (htrim : IsTrim value) :
    givenText? p.table key = value := by
  have hkeys : p.slots.keys.Nodup := by
    simp [slots]
  have hget : Table.get? p.table key = value.map Json.str := by
    rw [table, Table.get?_map_value, fields_eq, Table.get?_filterMap_value hkeys,
      (Table.get?_eq_some_iff hkeys).2 h]
    rfl
  rw [givenText?, hget]
  cases value with
  | none => rfl
  | some s => simp [(htrim s rfl).1]

theorem IsTidy.ofTexts_table (h : p.IsTidy) : ofTexts p.name p.table = p := by
  have hgiven : ∀ e ∈ p.slots, givenText? p.table e.1 = e.2 ∧ e.2.map trimmed = e.2 :=
    fun e he => ⟨givenText?_table he (h.fields e he), (h.fields e he).map_trimmed⟩
  obtain ⟨hurl, hurl'⟩ := hgiven ("url", p.url) (by simp [slots])
  obtain ⟨hcommit, hcommit'⟩ := hgiven ("commit", p.commit) (by simp [slots])
  obtain ⟨htag, htag'⟩ := hgiven ("tag", p.tag) (by simp [slots])
  obtain ⟨hbranch, hbranch'⟩ := hgiven ("branch", p.branch) (by simp [slots])
  rw [ofTexts, hurl, hcommit, htag, hbranch, hurl', hcommit', htag', hbranch',
    if_neg fun hneither => h.tracks hneither.1 hneither.2]

theorem IsTidy.ofJson_table (h : p.IsTidy) : ofJson p.name (.obj p.table) = .ok p := by
  rw [ofJson_table_of_name h.name, ofTable_of_texts (fun m => key_mem_of_mem_table)
    (fun m hm => Or.inr (exists_text_of_mem_table hm)), h.ofTexts_table]

/-! ## Pins that are read -/

/-- No member of a table is a text of blanks that is not empty. -/
def HasNoBlank (written : Json) : Prop :=
  ∀ key s, written.member? key = some (.str s) → trimmed s = "" → s = ""

theorem isTrim_none : IsTrim none :=
  fun _ h => absurd h (by simp)

theorem isTrim_trimmed {s : String} (h : trimmed s ≠ "") : IsTrim (some (trimmed s)) := by
  rintro _ ⟨⟩
  exact ⟨h, trimmed_trimmed s⟩

theorem isTrim_newestCommit : IsTrim (some newestCommit) := by
  rintro _ ⟨⟩
  decide

theorem isTrim_givenText? (h : HasNoBlank (.obj members)) (key : String) :
    IsTrim ((givenText? members key).map trimmed) := by
  rw [givenText?]
  split
  · rename_i s hmember
    by_cases hs : s = ""
    · rw [if_pos hs]
      exact isTrim_none
    · rw [if_neg hs]
      exact isTrim_trimmed fun hblank => hs (h key s hmember hblank)
  · exact isTrim_none

theorem isTidy_of_commit (hname : trimmed name ≠ "") (hcommit : IsTrim (some commit)) :
    IsTidy ⟨name, none, some commit, none, none⟩ where
  name := hname
  fields := by
    simp only [slots, List.forall_mem_cons, List.not_mem_nil, false_imp_iff, implies_true, and_true]
    exact ⟨isTrim_none, hcommit, isTrim_none, isTrim_none⟩
  tracks := fun h => absurd h (by simp)

theorem isTidy_ofTexts (hname : trimmed name ≠ "") (h : HasNoBlank (.obj members)) :
    IsTidy (ofTexts name members) where
  name := hname
  fields := by
    simp only [slots, List.forall_mem_cons, List.not_mem_nil, false_imp_iff, implies_true, and_true]
    refine ⟨isTrim_givenText? h "url", ?_, isTrim_givenText? h "tag", isTrim_givenText? h "branch"⟩
    simp only [ofTexts]
    split
    · exact isTrim_newestCommit
    · exact isTrim_givenText? h "commit"
  tracks := by
    simp only [ofTexts]
    intro hcommit htag
    rw [Option.map_eq_none_iff] at htag
    split at hcommit
    · contradiction
    · rename_i hnot
      exact hnot ⟨Option.map_eq_none_iff.1 hcommit, htag⟩

theorem isTidy_of_ofJson (h : ofJson name written = .ok p) (hblank : HasNoBlank written) :
    p.IsTidy := by
  unfold ofJson at h
  split at h
  · cases h
  · rename_i hname
    have hname : trimmed name ≠ "" := by simpa using hname
    split at h
    · rw [← Except.ok.inj h]
      exact isTidy_of_commit hname isTrim_newestCommit
    · rename_i commit
      rw [← Except.ok.inj h, ofCommit]
      apply isTidy_of_commit hname
      by_cases hcommit : trimmed commit = ""
      · rw [if_pos (by simpa using hcommit)]
        exact isTrim_newestCommit
      · rw [if_neg (by simpa using hcommit)]
        exact isTrim_trimmed hcommit
    · obtain rfl := ofTable_eq_ok h
      exact isTidy_ofTexts hname hblank
    · cases h

/-! ## Names with a commit -/

private theorem trim_at (hne : name.toList ≠ []) (htrim : trimmed name = name) (commit : String) :
    trim (name ++ "@" ++ commit).toList = name.toList ++ '@' :: trimRight commit.toList := by
  have hself : trim name.toList = name.toList := by
    rw [← String.toList_ofList (l := trim name.toList)]
    exact congrArg String.toList htrim
  have hleft : trimLeft name.toList = name.toList := by
    rw [← hself]
    exact trimLeft_trimRight_trimLeft name.toList
  have hright : trimRight name.toList = name.toList := by
    rw [← hself]
    exact trimRight_trimRight (trimLeft name.toList)
  have htext : (name ++ "@" ++ commit).toList = name.toList ++ '@' :: commit.toList := by simp
  rw [htext, trim, trimLeft_append_of_self hleft hne, trimRight_append hright,
    ← List.singleton_append, trimRight_append (by decide), List.singleton_append]

/-- A name with an at sign and a commit behind it is read as the name and the commit. -/
theorem parse_at (hname : trimmed name ≠ "") (htrim : trimmed name = name)
    (hat : '@' ∉ name.toList) (commit : String) :
    parse (name ++ "@" ++ commit) = .ok (ofCommit name commit) := by
  have hne : name.toList ≠ [] := by
    intro hnil
    exact hname (htrim.trans (String.toList_eq_nil_iff.1 hnil))
  have hbefore : ∀ c ∈ name.toList, (c != '@') = true := by
    intro c hc
    rw [bne_iff_ne]
    rintro rfl
    exact hat hc
  have hcommit : trimmed (String.ofList (trimRight commit.toList)) = trimmed commit := by
    rw [trimmed, String.toList_ofList, trim_trimRight]
    rfl
  simp only [parse, trim_at hne htrim, List.takeWhile_append_of_pos hbefore,
    List.dropWhile_append_of_pos hbefore]
  simp only [bne_self_eq_false, Bool.false_eq_true, not_false_eq_true, List.takeWhile_cons_of_neg,
    List.dropWhile_cons_of_neg, List.append_nil, List.drop_one, List.tail_cons,
    String.ofList_toList]
  by_cases hempty : String.ofList (trimRight commit.toList) = ""
  · rw [hempty] at hcommit ⊢
    have hblank : trimmed commit = "" := hcommit.symm.trans (by decide)
    simp [ofJson, hname, ofCommit, hblank]
  · rw [if_neg (by simpa using hempty), ofJson_of_name hname, ofCommit, hcommit, ofCommit]

end Pin

/-! ## Tables of pins -/

private theorem mapM_cons_eq_error_iff {α β ε : Type} {f : α → Except ε β} {x : α}
    {xs : List α} {e : ε} :
    (x :: xs).mapM f = .error e ↔ f x = .error e ∨ (∃ y, f x = .ok y) ∧ xs.mapM f = .error e := by
  rw [List.mapM_cons]
  cases f x with
  | error err => simp [bind, Except.bind]
  | ok y => cases xs.mapM f <;> simp [bind, Except.bind, pure, Except.pure]

private theorem mapM_eq_error_iff {α β ε : Type} {f : α → Except ε β} {xs : List α} {e : ε} :
    xs.mapM f = .error e ↔ ∃ before x after, xs = before ++ x :: after ∧
      (∀ y ∈ before, ∃ z, f y = .ok z) ∧ f x = .error e := by
  induction xs with
  | nil =>
    constructor
    · intro h
      cases h
    · rintro ⟨before, x, after, hsplit, -⟩
      cases before <;> cases hsplit
  | cons x xs ih =>
    rw [mapM_cons_eq_error_iff, ih]
    constructor
    · rintro (hx | ⟨hok, before, y, after, rfl, hbefore, hy⟩)
      · exact ⟨[], x, xs, rfl, List.forall_mem_nil _, hx⟩
      · exact ⟨x :: before, y, after, rfl, List.forall_mem_cons.2 ⟨hok, hbefore⟩, hy⟩
    · rintro ⟨before, y, after, hsplit, hbefore, hy⟩
      cases before with
      | nil =>
        obtain ⟨rfl, rfl⟩ := List.cons.inj hsplit
        exact .inl hy
      | cons first before =>
        obtain ⟨rfl, rfl⟩ := List.cons.inj hsplit
        obtain ⟨hok, hmore⟩ := List.forall_mem_cons.1 hbefore
        exact .inr ⟨hok, before, y, after, rfl, hmore, hy⟩

theorem exists_loadPins_iff :
    (∃ pins, loadPins entries = .ok pins) ↔
      ∀ entry ∈ entries, ∃ p, Pin.ofJson entry.1 entry.2 = .ok p := by
  constructor
  · rintro ⟨pins, hpins⟩ entry hentry
    obtain ⟨i, hi, rfl⟩ := List.getElem_of_mem hentry
    obtain ⟨hlength, hall⟩ := List.forall₂_iff_get.1 (loadPins_eq_ok_iff.1 hpins)
    exact ⟨_, hall i hi (hlength ▸ hi)⟩
  · intro hall
    cases hload : loadPins entries with
    | ok pins => exact ⟨pins, rfl⟩
    | error e =>
      obtain ⟨before, bad, after, rfl, -, hbad⟩ := mapM_eq_error_iff.1 hload
      obtain ⟨p, hp⟩ := hall bad (by simp)
      exact absurd (hp.symm.trans hbad) (by simp)

/-- A pin that was read without a text of blanks in its table reads back from its own fields. A name and
a commit mean the same with an at sign between them as apart. And a table of pins is accepted exactly if
all its entries are, which are then the pins under their own names in the same order; otherwise the first
entry that is refused tells the error. -/
theorem pins_read_back (entries : List (String × Json)) :
    (∀ name written p, Pin.ofJson name written = .ok p → Pin.HasNoBlank written →
      p.name = name ∧ Pin.ofJson p.name (.obj p.table) = .ok p) ∧
    (∀ name commit, trimmed name ≠ "" → trimmed name = name → '@' ∉ name.toList →
      ∃ p, Pin.parse (name ++ "@" ++ commit) = .ok p ∧ Pin.ofJson name (.str commit) = .ok p) ∧
    ((∃ pins, loadPins entries = .ok pins) ↔
      ∀ entry ∈ entries, ∃ p, Pin.ofJson entry.1 entry.2 = .ok p) ∧
    (∀ pins, loadPins entries = .ok pins → pins.map Pin.name = entries.map Prod.fst ∧
      List.Forall₂ (fun entry p => Pin.ofJson entry.1 entry.2 = .ok p) entries pins) ∧
    ∀ e, loadPins entries = .error e ↔ ∃ before bad after, entries = before ++ bad :: after ∧
      (∀ entry ∈ before, ∃ p, Pin.ofJson entry.1 entry.2 = .ok p) ∧
      Pin.ofJson bad.1 bad.2 = .error e := by
  refine ⟨fun name written p h hblank => ?_, fun name commit hname htrim hat => ?_,
    exists_loadPins_iff, fun pins hpins => ?_, fun e => mapM_eq_error_iff⟩
  · exact ⟨Pin.name_of_ofJson h, (Pin.isTidy_of_ofJson h hblank).ofJson_table⟩
  · exact ⟨_, Pin.parse_at hname htrim hat commit, Pin.ofJson_of_name hname commit⟩
  · exact ⟨names_of_loadPins hpins, loadPins_eq_ok_iff.1 hpins⟩

def untidyTable : Json :=
  .obj [("tag", .str " v1 "), ("branch", .str ""), ("url", .null)]

/-- The table gives a pin with nothing but its tag, and the second of two bad entries goes unnoticed. -/
theorem pins_read_back_untidyTable :
    Pin.HasNoBlank untidyTable ∧
      Pin.ofJson "lib" untidyTable = .ok ⟨"lib", none, none, some "v1", none⟩ ∧
      Pin.ofJson "lib" (.obj [("tag", .str "v1")]) = .ok ⟨"lib", none, none, some "v1", none⟩ ∧
      Pin.parse "lib@ v1@2 " = .ok ⟨"lib", none, some "v1@2", none, none⟩ ∧
      loadPins [("lib", untidyTable), ("other", .int 3), (" ", .null)] =
        .error (.notATable "other" "int") := by
  have hblank : Pin.HasNoBlank untidyTable := by
    intro key s hmember hs
    have hmem := Table.mem_of_get? hmember
    simp only [List.mem_cons, Prod.mk.injEq, Json.str.injEq, List.not_mem_nil, or_false,
      reduceCtorEq, and_false] at hmem
    rcases hmem with ⟨-, rfl⟩ | ⟨-, rfl⟩
    · exact absurd hs (by decide)
    · rfl
  have hread : Pin.ofJson "lib" untidyTable = .ok ⟨"lib", none, none, some "v1", none⟩ := by
    rw [untidyTable, Pin.ofJson_table_of_name (by decide), Pin.ofTable_of_texts (by decide) (by simp)]
    decide
  obtain ⟨hback, hat, -, -, herror⟩ :=
    pins_read_back [("lib", untidyTable), ("other", .int 3), (" ", .null)]
  obtain ⟨p, hparse, hcommit⟩ := hat "lib" " v1@2 " (by decide) (by decide) (by decide)
  have htext : "lib" ++ "@" ++ " v1@2 " = "lib@ v1@2 " := by decide
  refine ⟨hblank, hread, (hback _ _ _ hread hblank).2, ?_, ?_⟩
  · rw [← htext, hparse, ← hcommit]
    rfl
  · refine (herror _).2 ⟨[("lib", untidyTable)], ("other", .int 3), [(" ", .null)], rfl, ?_, rfl⟩
    exact List.forall_mem_singleton.2 ⟨_, hread⟩

end ImportSurvey.Dependency
