import ImportSurvey.Platform.Tags
import ImportSurvey.Proofs.Constraint.Alternatives
import ImportSurvey.Proofs.Constraint.Conjunction
/-!
# Releases in their order

A version text names the minor number of a release, and building with it sets the tag of every release
up to that one. Numbers are printed in one way only, so a constraint on a release holds exactly for the
versions that are not older, and the tags grow with the version.
-/

namespace ImportSurvey

open Text

variable {c : Char} {cs : List Char} {n : Nat}

namespace Text

/-! ## Decimal numbers -/

private theorem digitValue?_of_isDigit (h : c.isDigit = true) :
    digitValue? c = some (c.toNat - '0'.toNat) := by
  have hrange : 48 ≤ c.toNat ∧ c.toNat ≤ 57 := Char.isDigit_iff_toNat.1 h
  simp [digitValue?, digitZeros, hrange]

private theorem isDecimal_of_isDigit (h : c.isDigit = true) : isDecimal c = true := by
  have hrange : 48 ≤ c.toNat ∧ c.toNat ≤ 57 := Char.isDigit_iff_toNat.1 h
  rw [isDecimal, if_pos (by omega), h]

private theorem isTagChar_of_isDecimal (h : isDecimal c = true) : isTagChar c = true :=
  isTagChar_of_isWord (isWord_of_isDecimal h)

private theorem naturalOf_eq_ofDigitChars (h : ∀ c ∈ cs, c.isDigit = true) :
    naturalOf cs = Nat.ofDigitChars 10 cs 0 := by
  have hfold : ∀ value, cs.foldl (fun value c => 10 * value + (digitValue? c).getD 0) value =
      cs.foldl (fun value c => 10 * value + (c.toNat - '0'.toNat)) value := by
    intro value
    apply List.foldl_ext
    intro before c hc
    rw [digitValue?_of_isDigit (h c hc), Option.getD_some]
  exact hfold 0

private theorem isDigit_of_mem_toString (h : c ∈ (toString n).toList) : c.isDigit = true := by
  rw [Nat.toString_eq_repr, Nat.toList_repr] at h
  exact Nat.isDigit_of_mem_toDigits (by decide) (by decide) h

theorem naturalOf_toString (n : Nat) : naturalOf (toString n).toList = n := by
  rw [naturalOf_eq_ofDigitChars fun c => isDigit_of_mem_toString, Nat.toString_eq_repr,
    Nat.toList_repr]
  exact Nat.ofDigitChars_toDigits (by decide) (by decide)

end Text

namespace Platform

/-! ## Version texts -/

theorem isNumber_iff : isNumber cs = true ↔ cs ≠ [] ∧ ∀ c ∈ cs, isDecimal c = true := by
  simp [isNumber]

theorem isNumber_toString (n : Nat) : isNumber (toString n).toList = true := by
  rw [isNumber_iff]
  refine ⟨?_, fun c hc => isDecimal_of_isDigit (isDigit_of_mem_toString hc)⟩
  rw [Nat.toString_eq_repr, Nat.toList_repr]
  exact Nat.toDigits_ne_nil

private theorem dot_not_mem_of_isNumber (h : isNumber cs = true) : '.' ∉ cs := by
  intro hdot
  exact absurd ((isNumber_iff.1 h).2 '.' hdot) (by decide)

/-- A release as it is written: `1.` and the digits of its minor number, with or without `go` in front
and a patch number behind. -/
structure Release where
  hasGo : Bool
  digits : List Char
  patch : Option (List Char)
  isNumber_digits : isNumber digits = true
  isNumber_patch : ∀ p ∈ patch, isNumber p = true

namespace Release

def numbers (r : Release) : List (List Char) :=
  r.digits :: r.patch.toList

def plain (r : Release) : List Char :=
  '1' :: '.' :: ['.'].intercalate r.numbers

def text (r : Release) : List Char :=
  if r.hasGo then 'g' :: 'o' :: r.plain else r.plain

def minor (r : Release) : Nat :=
  naturalOf r.digits

def SpelledBy (r : Release) (version : String) : Prop :=
  ∃ lead trail, (∀ c ∈ lead, isBlank c = true) ∧ (∀ c ∈ trail, isBlank c = true) ∧
    version.toList = lead ++ r.text ++ trail

theorem isNumber_of_mem_numbers (r : Release) : ∀ cs ∈ r.numbers, isNumber cs = true := by
  intro cs hcs
  rcases List.mem_cons.1 hcs with rfl | hpatch
  · exact r.isNumber_digits
  · exact r.isNumber_patch cs (Option.mem_toList.1 hpatch)

theorem splitOn_numbers (r : Release) :
    (['.'].intercalate r.numbers).splitOn '.' = r.numbers := by
  apply List.splitOn_intercalate
  · exact fun cs hcs => dot_not_mem_of_isNumber (r.isNumber_of_mem_numbers cs hcs)
  · simp [numbers]

theorem minorVersion?_text (r : Release) : minorVersion? r.text = some r.minor := by
  have hgo : (['g', 'o'].isPrefixOf? r.text).getD r.text = r.plain := by
    unfold text
    cases r.hasGo <;> rfl
  have hplain : ['1', '.'].isPrefixOf? r.plain = some (['.'].intercalate r.numbers) := rfl
  unfold minorVersion?
  simp only [hgo, hplain, r.splitOn_numbers]
  cases hpatch : r.patch with
  | none => simp [numbers, hpatch, r.isNumber_digits, minor]
  | some p =>
    have hp : isNumber p = true := r.isNumber_patch p hpatch
    simp [numbers, hpatch, r.isNumber_digits, hp, minor]

/-- The text of a release in front of which `go` may have been taken away. -/
theorem exists_of_plain {digits : List Char} (patch : Option (List Char))
    (hdigits : isNumber digits = true) (hpatch : ∀ p ∈ patch, isNumber p = true)
    (h : ['1', '.'].isPrefixOf? ((['g', 'o'].isPrefixOf? cs).getD cs) =
      some (['.'].intercalate (digits :: patch.toList))) :
    ∃ r : Release, r.text = cs ∧ r.minor = naturalOf digits := by
  cases hgo : ['g', 'o'].isPrefixOf? cs with
  | none =>
    rw [hgo, Option.getD_none, isPrefixOf?_eq_some] at h
    exact ⟨⟨false, digits, patch, hdigits, hpatch⟩, h.symm, rfl⟩
  | some rest =>
    rw [hgo, Option.getD_some, isPrefixOf?_eq_some] at h
    rw [isPrefixOf?_eq_some, h] at hgo
    exact ⟨⟨true, digits, patch, hdigits, hpatch⟩, hgo.symm, rfl⟩

theorem exists_of_minorVersion? {minor : Nat} (h : minorVersion? cs = some minor) :
    ∃ r : Release, r.text = cs ∧ r.minor = minor := by
  unfold minorVersion? at h
  dsimp only at h
  split at h
  · contradiction
  · rename_i rest hplain
    have hrest : ['.'].intercalate (rest.splitOn '.') = rest := List.intercalate_splitOn '.'
    split at h
    · rename_i digits hsplit
      obtain ⟨hdigits, rfl⟩ : isNumber digits = true ∧ naturalOf digits = minor := by
        simpa using h
      rw [hsplit] at hrest
      exact exists_of_plain none hdigits (by simp) (hplain.trans (congrArg some hrest.symm))
    · rename_i digits p hsplit
      obtain ⟨⟨hdigits, hp⟩, rfl⟩ :
          (isNumber digits = true ∧ isNumber p = true) ∧ naturalOf digits = minor := by
        simpa using h
      rw [hsplit] at hrest
      exact exists_of_plain (some p) hdigits (by simpa using hp)
        (hplain.trans (congrArg some hrest.symm))
    · contradiction

theorem isTagChar_of_mem_text (r : Release) : ∀ c ∈ r.text, isTagChar c = true := by
  have hdecimal : ∀ cs ∈ r.numbers, ∀ c ∈ cs, isTagChar c = true := fun cs hcs c hc =>
    isTagChar_of_isDecimal ((isNumber_iff.1 (r.isNumber_of_mem_numbers cs hcs)).2 c hc)
  have hnumbers : ∀ c ∈ ['.'].intercalate r.numbers, isTagChar c = true := by
    unfold numbers at hdecimal ⊢
    cases hpatch : r.patch with
    | none => simpa [hpatch] using hdecimal
    | some p =>
      have hdot : isTagChar '.' = true := by decide
      simpa [hpatch, List.intercalate, hdot, or_imp, forall_and] using hdecimal
  have hplain : ∀ c ∈ r.plain, isTagChar c = true :=
    List.forall_mem_cons.2 ⟨by decide, List.forall_mem_cons.2 ⟨by decide, hnumbers⟩⟩
  unfold text
  cases r.hasGo with
  | false => exact hplain
  | true => exact List.forall_mem_cons.2 ⟨by decide, List.forall_mem_cons.2 ⟨by decide, hplain⟩⟩

theorem not_blank_of_mem_text (r : Release) : ∀ c ∈ r.text, isBlank c = false :=
  fun c hc => isBlank_eq_false_of_isTagChar (r.isTagChar_of_mem_text c hc)

theorem spelledBy_iff {r : Release} {version : String} :
    r.SpelledBy version ↔ trim version.toList = r.text := by
  constructor
  · rintro ⟨lead, trail, hlead, htrail, hversion⟩
    rw [hversion]
    exact trim_between hlead r.not_blank_of_mem_text htrail
  · intro h
    obtain ⟨lead, trail, hlead, htrail, hversion⟩ := exists_around_trim version.toList
    exact ⟨lead, trail, hlead, htrail, h ▸ hversion⟩

end Release

theorem releaseTags_eq_ok {r : Release} {version : String} (h : r.SpelledBy version) :
    releaseTags version = .ok ((List.range' 1 r.minor).map releaseTag) := by
  rw [releaseTags, Release.spelledBy_iff.1 h, r.minorVersion?_text]

theorem releaseTags_eq_error {version : String} (h : ∀ r : Release, ¬ r.SpelledBy version) :
    releaseTags version = .error ⟨version⟩ := by
  unfold releaseTags
  cases hminor : minorVersion? (trim version.toList) with
  | none => rfl
  | some minor =>
    obtain ⟨r, htext, -⟩ := Release.exists_of_minorVersion? hminor
    exact absurd (Release.spelledBy_iff.2 htext.symm) (h r)

/-! ## The tags of the releases -/

theorem releaseTag_injective : Function.Injective releaseTag := by
  intro m n h
  have hprinted : toString m = toString n := (String.append_right_inj "go1.").1 h
  calc
    m = naturalOf (toString m).toList := (naturalOf_toString m).symm
    _ = naturalOf (toString n).toList := by rw [hprinted]
    _ = n := naturalOf_toString n

theorem releaseTag_mem_releases {k : Nat} (hk : 1 ≤ k) :
    releaseTag k ∈ (List.range' 1 n).map releaseTag ↔ k ≤ n := by
  rw [List.mem_map_of_injective releaseTag_injective, List.mem_range'_1]
  omega

theorem releases_subset {m : Nat} (h : m ≤ n) :
    (List.range' 1 m).map releaseTag ⊆ (List.range' 1 n).map releaseTag := by
  apply List.map_subset
  intro k hk
  rw [List.mem_range'_1] at hk ⊢
  omega

theorem isTag_releaseTag (k : Nat) : Constraint.IsTag (releaseTag k).toList := by
  rw [releaseTag, String.toList_append]
  refine ⟨by simp, fun c hc => ?_⟩
  rcases List.mem_append.1 hc with hc | hc
  · have hletters : "go1.".toList.all isTagChar = true := by decide
    exact List.all_eq_true.1 hletters c hc
  · exact isTagChar_of_isDecimal (isDecimal_of_isDigit (isDigit_of_mem_toString hc))

theorem ne_releaseTag {name : String} (h : ¬ "go1.".toList <+: name.toList) (k : Nat) :
    name ≠ releaseTag k := by
  rintro rfl
  rw [releaseTag, String.toList_append] at h
  exact h (List.prefix_append _ _)

/-- No name that a target or the extra tags give is the tag of a release. -/
structure NamesNoRelease (t : Target) (extra : List String) : Prop where
  system : ∀ k, t.system ≠ releaseTag k
  architecture : ∀ k, t.architecture ≠ releaseTag k
  compiler : ∀ k, t.compiler ≠ releaseTag k
  extra : ∀ name ∈ extra, ∀ k, trimmed name ≠ releaseTag k

private theorem mem_tagList (t : Target) (releases extra : List String) {a : String} :
    a ∈ t.tagList releases extra ↔ a ∈ releases ∨ a ∈ t.tagList [] extra := by
  simp only [Target.tagList, List.mem_append, List.not_mem_nil]
  tauto

theorem ne_releaseTag_of_implied {system name : String} (h : impliedSystem? system = some name)
    (k : Nat) : name ≠ releaseTag k := by
  unfold impliedSystem? at h
  split at h
  · exact Option.some.inj h ▸ ne_releaseTag (by decide) k
  · exact Option.some.inj h ▸ ne_releaseTag (by decide) k
  · exact Option.some.inj h ▸ ne_releaseTag (by decide) k
  · contradiction

theorem NamesNoRelease.ne {t : Target} {extra : List String} (h : NamesNoRelease t extra) :
    ∀ name ∈ t.tagList [] extra, ∀ k, name ≠ releaseTag k := by
  simp only [Target.tagList, List.append_nil, List.forall_mem_append]
  refine ⟨⟨⟨⟨?_, ?_⟩, ?_⟩, ?_⟩, ?_⟩
  · exact List.forall_mem_cons.2 ⟨h.system,
      List.forall_mem_cons.2 ⟨h.architecture, List.forall_mem_singleton.2 h.compiler⟩⟩
  · intro name hname
    exact ne_releaseTag_of_implied (Option.mem_toList.1 hname)
  · intro name hname
    obtain rfl := List.eq_of_mem_singleton (List.mem_ite_nil_right.1 hname).2
    exact ne_releaseTag (by decide)
  · intro name hname
    obtain rfl := List.eq_of_mem_singleton (List.mem_ite_nil_right.1 hname).2
    exact ne_releaseTag (by decide)
  · intro name hname
    obtain ⟨written, hwritten, rfl⟩ := List.mem_map.1 (List.mem_filter.1 hname).1
    exact h.extra written hwritten

end Platform

namespace Constraint

open Source

/-! ## Constraints on one tag -/

/-- The one directive in front of a text is a `+build` comment that names one tag and nothing else. -/
def AsksFor (source tag : String) : Prop :=
  ∃ comment line body, directives source = [⟨.plusBuild, comment, line⟩] ∧
    IsPlusBuild comment.toList body ∧ fields body = [tag.toList]

theorem asksFor_of_directives {source tag : String} (htag : IsTag tag.toList) (line : Nat)
    (h : directives source = [⟨.plusBuild, "// +build " ++ tag, line⟩]) : AsksFor source tag := by
  refine ⟨_, line, ' ' :: tag.toList, h, ⟨[], [' '], List.forall_mem_nil _,
    List.forall_mem_singleton.2 rfl, ?_, rfl⟩, ?_⟩
  · rw [String.toList_append]
    rfl
  · rw [← List.singleton_append, fields_blank_append (List.forall_mem_singleton.2 rfl),
      fields_of_not_blank htag.1 htag.isBlank]

theorem evaluate_of_asksFor {source tag : String} (htag : IsTag tag.toList)
    (h : AsksFor source tag) (tags : NameSet) :
    evaluate source tags = .ok (decide (tag ∈ tags)) := by
  obtain ⟨comment, line, body, hdirectives, hcomment, hfields⟩ := h
  let a : Alternative := ⟨⟨0, tag, htag⟩, []⟩
  have htext : a.text = tag.toList := List.intercalate_singleton
  have halternative : plusBuildFields comment.toList = [a].map Alternative.text := by
    rw [plusBuildFields_of_isPlusBuild hcomment, hfields, ← htext]
    exact List.takeWhile_cons_of_pos a.isTermList_text
  have hread : readPlusBuild comment (some line) = .ok (some (.tag tag)) :=
    readPlusBuild_of_fields halternative (some line)
  rw [evaluate_eq, hdirectives, evaluateAll_cons]
  have hdirective : ofDirective ⟨.plusBuild, comment, line⟩ = .ok (some (.tag tag)) := hread
  rw [hdirective]
  change Except.ok (decide (tag ∈ tags) && true) = _
  rw [Bool.and_true]

end Constraint

namespace Platform

open Constraint

/-! ## Targets -/

theorem Target.tags_eq_ok {t : Target} {extra : List String} {r : Release}
    (h : r.SpelledBy t.version) :
    t.tags extra =
      .ok (.ofList (t.tagList ((List.range' 1 r.minor).map releaseTag) extra)) := by
  rw [Target.tags, releaseTags_eq_ok h]
  rfl

/-- Releases are ordered by their minor numbers. A text that asks for a release is part of the build
just if the version is not older, unless a name that is given otherwise is the tag of a release; a newer
version sets all tags that an older one sets; and a version that spells no release is refused. Every
number can be the minor one, which is the number whose decimal digits are written. -/
theorem release_tags_order (t : Target) (extra : List String) :
    (∀ r : Release, r.SpelledBy t.version → NamesNoRelease t extra →
      ∃ tags, t.tags extra = .ok tags ∧ ∀ source k, 1 ≤ k → AsksFor source (releaseTag k) →
        evaluate source tags = .ok (decide (k ≤ r.minor))) ∧
    (∀ (r newer : Release) (version : String), r.SpelledBy t.version → newer.SpelledBy version →
      r.minor ≤ newer.minor → ∃ tags more, t.tags extra = .ok tags ∧
        { t with version := version }.tags extra = .ok more ∧ ∀ a ∈ tags, a ∈ more) ∧
    ((∀ r : Release, ¬ r.SpelledBy t.version) → t.tags extra = .error ⟨t.version⟩) ∧
    ∀ n : Nat, (∃ r : Release, r.digits = (toString n).toList) ∧
      ∀ r : Release, r.digits = (toString n).toList → r.minor = n := by
  refine ⟨fun r hversion hnames => ⟨_, Target.tags_eq_ok hversion, ?_⟩,
    fun r newer version hversion hnewer hle => ⟨_, _, Target.tags_eq_ok hversion,
      Target.tags_eq_ok hnewer, ?_⟩, ?_, ?_⟩
  · intro source k hk hsource
    rw [evaluate_of_asksFor (isTag_releaseTag k) hsource]
    have hother : releaseTag k ∉ t.tagList [] extra := fun hmem => hnames.ne _ hmem k rfl
    simp only [NameSet.mem_ofList, mem_tagList t (List.map _ _), hother, or_false,
      releaseTag_mem_releases hk]
  · intro a ha
    rw [NameSet.mem_ofList, mem_tagList] at ha ⊢
    exact ha.imp_left fun hrelease => releases_subset hle hrelease
  · intro hnone
    rw [Target.tags, releaseTags_eq_error hnone]
    rfl
  · intro n
    refine ⟨⟨⟨false, (toString n).toList, none, isNumber_toString n, by simp⟩, rfl⟩, ?_⟩
    intro r hdigits
    rw [Release.minor, hdigits, naturalOf_toString]

/-- A patched release with blanks around and one extra tag: texts that ask for that release and for the
next, the tags that the next has in common with it, and a candidate, which is refused. -/
theorem release_tags_order_patched :
    ∃ tags more, { version := " go1.22.3\n" : Target }.tags ["race"] = .ok tags ∧
      evaluate "// +build go1.22\n\npackage p\n" tags = .ok true ∧
      evaluate "// +build go1.23\n\npackage p\n" tags = .ok false ∧
      { version := "1.23" : Target }.tags ["race"] = .ok more ∧ (∀ a ∈ tags, a ∈ more) ∧
      { version := "1.22rc1" : Target }.tags ["race"] = .error ⟨"1.22rc1"⟩ := by
  let t : Target := { version := " go1.22.3\n" }
  let r : Release := ⟨true, ['2', '2'], some ['3'], by decide, by simp; decide⟩
  let newer : Release := ⟨false, ['2', '3'], none, by decide, by simp⟩
  have hversion : r.SpelledBy t.version := Release.spelledBy_iff.2 (by decide)
  have hnewer : newer.SpelledBy "1.23" := Release.spelledBy_iff.2 (by decide)
  have hcandidate : ∀ r : Release, ¬ r.SpelledBy "1.22rc1" := by
    intro r hr
    have hnone : minorVersion? (trim "1.22rc1".toList) = none := by decide
    rw [Release.spelledBy_iff.1 hr, r.minorVersion?_text] at hnone
    contradiction
  have hnames : NamesNoRelease t ["race"] :=
    ⟨ne_releaseTag (by decide), ne_releaseTag (by decide), ne_releaseTag (by decide),
      List.forall_mem_singleton.2 (ne_releaseTag (by decide))⟩
  have hpresent : AsksFor "// +build go1.22\n\npackage p\n" (releaseTag 22) :=
    asksFor_of_directives (isTag_releaseTag 22) 1 (by decide +kernel)
  have hnext : AsksFor "// +build go1.23\n\npackage p\n" (releaseTag 23) :=
    asksFor_of_directives (isTag_releaseTag 23) 1 (by decide +kernel)
  obtain ⟨hasks, hgrow, -⟩ := release_tags_order t ["race"]
  obtain ⟨tags, htags, hasks⟩ := hasks r hversion hnames
  obtain ⟨tags', more, htags', hmore, hsubset⟩ := hgrow r newer "1.23" hversion hnewer (by decide)
  obtain rfl : tags' = tags := Except.ok.inj (htags'.symm.trans htags)
  exact ⟨tags', more, htags, hasks _ 22 (by decide) hpresent, hasks _ 23 (by decide) hnext, hmore,
    hsubset, (release_tags_order { version := "1.22rc1" } ["race"]).2.2.1 hcandidate⟩

end Platform

end ImportSurvey
