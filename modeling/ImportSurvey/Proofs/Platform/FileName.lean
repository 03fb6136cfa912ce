import ImportSurvey.Platform.FileName
/-!
# Platforms named by file names

The rule for file names is read off the base name in one order: the stem is split from its first
underscore on, a last field `test` is dropped, and the fields that are left last decide. Taking the
mark of a test off the stem first, and dropping what stands before the first underscore last, comes
to the same. Directories have no say.
-/

namespace ImportSurvey.Platform

variable {tags more : NameSet} {path base lead : String} {stem cs last : List Char}
  {fields : List String}

/-! ## The rule on base names -/

def isSeparator (c : Char) : Bool :=
  c == '/' || c == '\\'

/-- The fields of a stem from its first underscore on. What stands before that underscore is gone,
so the first field is empty. -/
def fieldsFromUnderscore (stem : List Char) : List String :=
  ((stem.dropWhile (· != '_')).splitOn '_').map String.ofList

def dropTestField (fields : List String) : List String :=
  if fields.getLast? = some "test" then fields.dropLast else fields

/-- Whether the last fields allow a platform: a system with an architecture behind it asks for both
tags, and any other last field that names a system or an architecture for its own. -/
def lastFieldsAllow (fields : List String) (tags : NameSet) : Bool :=
  let last := fields.getLastD ""
  let before := fields.dropLast.getLastD ""
  if isSystem before && isArchitecture last then decide (before ∈ tags ∧ last ∈ tags)
  else if isSystem last || isArchitecture last then decide (last ∈ tags)
  else true

def baseAllows (base : String) (tags : NameSet) : Bool :=
  let stem := base.toList.takeWhile (· != '.')
  if '_' ∈ stem then lastFieldsAllow (dropTestField (fieldsFromUnderscore stem)) tags else true

/-! ## Directories -/

/-- What ends in a separator, or is empty, does not change the last element of a path. -/
theorem baseName_append (hlead : ∀ c ∈ lead.toList.getLast?, isSeparator c = true)
    (hne : base ≠ "") (hdot : base ≠ ".") (hbase : ∀ c ∈ base.toList, isSeparator c = false) :
    baseName (lead ++ base) = base.toList := by
  have hkept : ([base.toList].filter fun e => !e.isEmpty && e != ['.']) = [base.toList] := by
    have hnil : base.toList ≠ [] := fun h => hne (String.toList_injective h)
    have hsingle : base.toList ≠ ['.'] := fun h => hdot (String.toList_injective h)
    simp [hnil, hsingle]
  have hsplit : base.toList.splitOnP isSeparator = [base.toList] :=
    List.splitOnP_eq_singleton hbase
  have helements : ∃ elements, (lead ++ base).toList.splitOnP isSeparator =
      elements ++ [base.toList] := by
    rw [String.toList_append]
    rcases List.eq_nil_or_concat lead.toList with hlead' | ⟨dir, sep, hlead'⟩
    · exact ⟨[], by rw [hlead', List.nil_append, hsplit, List.nil_append]⟩
    · have hsep : isSeparator sep = true := hlead sep (by simp [hlead'])
      refine ⟨dir.splitOnP isSeparator, ?_⟩
      rw [hlead', List.concat_eq_append, List.append_assoc, List.singleton_append,
        List.splitOnP_append_cons _ _ hsep, hsplit]
  obtain ⟨elements, helements⟩ := helements
  change ((((lead ++ base).toList.splitOnP isSeparator).filter _).getLast?).getD [] = _
  rw [helements, List.filter_append, hkept, List.getLast?_concat, Option.getD_some]

/-! ## The mark of a test -/

private theorem exists_last_underscore (h : '_' ∈ stem) :
    ∃ cs last, stem = cs ++ '_' :: last ∧ '_' ∉ last := by
  obtain ⟨front, back, heq, hfront⟩ := List.eq_append_cons_of_mem (List.mem_reverse.2 h)
  refine ⟨back.reverse, front.reverse, ?_, fun hmem => hfront (List.mem_reverse.1 hmem)⟩
  rw [← stem.reverse_reverse, heq]
  simp

private theorem splitOn_append_last (h : '_' ∉ last) :
    (cs ++ '_' :: last).splitOn '_' = cs.splitOn '_' ++ [last] := by
  rw [List.splitOn_append_cons_self, List.splitOn_eq_singleton h]

theorem fieldsFromUnderscore_of_mem (h : '_' ∈ stem) :
    fieldsFromUnderscore stem = "" :: ((stem.splitOn '_').drop 1).map String.ofList := by
  obtain ⟨first, rest, rfl, hfirst⟩ := List.eq_append_cons_of_mem h
  have hdrop : (first ++ '_' :: rest).dropWhile (· != '_') = '_' :: rest := by
    rw [List.dropWhile_append_of_pos]
    · simp
    · intro c hc
      have hne : c ≠ '_' := fun heq => hfirst (heq ▸ hc)
      simpa using hne
  have hsplit : ('_' :: rest).splitOn '_' = [] :: rest.splitOn '_' :=
    List.splitOn_append_cons_self_of_not_mem List.not_mem_nil rest
  rw [fieldsFromUnderscore, hdrop, hsplit, List.splitOn_append_cons_self_of_not_mem hfirst]
  rfl

/-- A stem carries the mark of a test exactly if `test` stands behind its last underscore. -/
theorem dropTestMark_append_last (h : '_' ∉ last) :
    dropTestMark (cs ++ '_' :: last) =
      if last = "test".toList then cs else cs ++ '_' :: last := by
  by_cases htest : last = "test".toList
  · subst htest
    have hsuffix : "_test".toList.isSuffixOf (cs ++ '_' :: "test".toList) = true :=
      List.isSuffixOf_iff_suffix.2 (List.suffix_append cs _)
    rw [dropTestMark, if_pos hsuffix, if_pos rfl]
    simp
  · have hsuffix : ¬ "_test".toList.isSuffixOf (cs ++ '_' :: last) = true := by
      rw [List.isSuffixOf_iff_suffix]
      rintro ⟨ds, hds⟩
      -- both sides end in a field, and a last field is what the split ends in
      have hsplit : ds.splitOn '_' ++ ["test".toList] = cs.splitOn '_' ++ [last] := by
        rw [← splitOn_append_last h, ← hds]
        exact (splitOn_append_last (by decide)).symm
      exact htest (List.singleton_inj.1 (List.append_inj_right' hsplit rfl)).symm
    rw [dropTestMark, if_neg hsuffix, if_neg htest]

theorem dropTestField_append_last (fields : List String) (last : String) :
    dropTestField (fields ++ [last]) = if last = "test" then fields else fields ++ [last] := by
  simp [dropTestField]

/-- Behind the first underscore the same fields stand, whichever way the mark of a test is
dropped. -/
theorem dropTestField_fieldsFromUnderscore (h : '_' ∈ stem) :
    dropTestField (fieldsFromUnderscore stem) =
      "" :: (((dropTestMark stem).splitOn '_').drop 1).map String.ofList := by
  rw [fieldsFromUnderscore_of_mem h]
  obtain ⟨cs, last, rfl, hlast⟩ := exists_last_underscore h
  have hfields : ((cs ++ '_' :: last).splitOn '_').drop 1 = (cs.splitOn '_').drop 1 ++ [last] := by
    rw [splitOn_append_last hlast, List.drop_append_of_le_length]
    exact List.length_pos_iff.2 (List.splitOn_ne_nil '_' cs)
  rw [hfields, List.map_append, List.map_singleton, ← List.cons_append, dropTestField_append_last,
    dropTestMark_append_last hlast]
  by_cases htest : last = "test".toList
  · rw [if_pos htest, if_pos (by rw [htest, String.ofList_toList])]
  · have hne : String.ofList last ≠ "test" := fun heq =>
      htest (by rw [← heq, String.toList_ofList])
    rw [if_neg htest, if_neg hne, hfields, List.map_append, List.map_singleton, List.cons_append]

/-! ## The rule on file names -/

theorem lastFieldsAllow_eq_fieldsAllow (fields : List String) (tags : NameSet) :
    lastFieldsAllow ("" :: fields) tags = fieldsAllow tags fields.reverse := by
  have hempty : isSystem "" = false ∧ isArchitecture "" = false := by decide
  rcases List.eq_nil_or_concat fields with rfl | ⟨init, last, rfl⟩
  · simp [lastFieldsAllow, fieldsAllow, hempty]
  · rcases List.eq_nil_or_concat init with rfl | ⟨init, before, rfl⟩
    · simp [lastFieldsAllow, fieldsAllow, hempty]
    · have hfields : ("" :: (init.concat before).concat last) =
          ("" :: init) ++ [before] ++ [last] := by
        simp
      rw [hfields, lastFieldsAllow, List.dropLast_concat, List.getLastD_concat, List.getLastD_concat]
      simp [fieldsAllow]

/-- A file counts exactly if its base name allows it, whatever directory it stands in. -/
theorem nameAllows_append (hlead : ∀ c ∈ lead.toList.getLast?, isSeparator c = true)
    (hne : base ≠ "") (hdot : base ≠ ".") (hbase : ∀ c ∈ base.toList, isSeparator c = false) :
    nameAllows (lead ++ base) tags = baseAllows base tags := by
  rw [nameAllows, platformFields, baseName_append hlead hne hdot hbase, baseAllows]
  by_cases hmark : '_' ∈ base.toList.takeWhile (· != '.')
  · rw [if_pos hmark, dropTestField_fieldsFromUnderscore hmark, lastFieldsAllow_eq_fieldsAllow]
  · have hsuffix : ¬ "_test".toList.isSuffixOf (base.toList.takeWhile (· != '.')) = true := by
      rw [List.isSuffixOf_iff_suffix]
      exact fun h => hmark (h.subset (by decide))
    rw [if_neg hmark, dropTestMark, if_neg hsuffix, List.splitOn_eq_singleton hmark]
    rfl

/-- The directory names a system and so does the base name, behind which a test is marked: only the
base name counts. -/
theorem nameAllows_append_windows_test :
    nameAllows ("pkg/zsys_linux\\" ++ "a_windows_amd64_test.pb.go")
      ⟨["amd64", "linux"], by decide⟩ = false := by
  have hlead : ∀ c ∈ "pkg/zsys_linux\\".toList.getLast?, isSeparator c = true := by
    simp [isSeparator]
  have hbase : ∀ c ∈ "a_windows_amd64_test.pb.go".toList, isSeparator c = false := by
    simp [isSeparator]
  rw [nameAllows_append hlead (by decide) (by decide) hbase]
  decide

/-! ## More tags -/

theorem fieldsAllow_mono (h : ∀ a ∈ tags, a ∈ more) :
    fieldsAllow tags fields = true → fieldsAllow more fields = true := by
  match fields with
  | [] => exact id
  | [last] =>
    simp only [fieldsAllow]
    split
    · simpa using h last
    · exact id
  | last :: before :: _ =>
    simp only [fieldsAllow]
    split
    · simpa using fun hbefore hlast => ⟨h before hbefore, h last hlast⟩
    · split
      · simpa using h last
      · exact id

theorem nameAllows_mono (h : ∀ a ∈ tags, a ∈ more) (hname : nameAllows path tags = true) :
    nameAllows path more = true :=
  fieldsAllow_mono h hname

end ImportSurvey.Platform
