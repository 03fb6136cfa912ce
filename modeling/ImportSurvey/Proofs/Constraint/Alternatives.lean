import ImportSurvey.Constraint.PlusBuild
import ImportSurvey.Proofs.Constraint.Spelling
/-!
# What a `+build` comment says

The fields of a `+build` comment are read as alternatives as far as they are lists of terms between
commas; the first field that is none and everything behind it is free text. What is read holds where
all terms of some alternative do, and a term with two exclamation marks or more makes the comment
invalid.
-/

namespace ImportSurvey.Constraint

open Text Source

variable {cs field body comment front tail other : List Char} {line : Option Nat}

/-! ## Terms -/

instance (name : List Char) : Decidable (IsTag name) :=
  decidable_of_iff (name ≠ [] ∧ name.all isTagChar = true) (by simp [IsTag])

structure Term where
  marks : Nat
  name : String
  isTag : IsTag name.toList

namespace Term

def text (t : Term) : List Char :=
  List.replicate t.marks '!' ++ t.name.toList

def isInvalid (t : Term) : Bool :=
  2 ≤ t.marks

def Holds (tags : NameSet) (t : Term) : Prop :=
  (t.marks = 0 → t.name ∈ tags) ∧ (t.marks = 1 → t.name ∉ tags)

def formula (t : Term) : Expr :=
  if t.marks = 0 then .tag t.name else .not (.tag t.name)

theorem span_text (t : Term) :
    t.text.takeWhile (· == '!') = List.replicate t.marks '!' ∧
      t.text.dropWhile (· == '!') = t.name.toList := by
  have hmarks : ∀ c ∈ List.replicate t.marks '!', (c == '!') = true := by
    intro c hc
    rw [List.eq_of_mem_replicate hc]
    rfl
  obtain ⟨hne, htag⟩ := t.isTag
  cases hname : t.name.toList with
  | nil => exact absurd hname hne
  | cons c cs =>
    have hc : (c == '!') = false := by
      rw [beq_eq_false_iff_ne]
      rintro rfl
      exact absurd (htag '!' (hname ▸ List.mem_cons_self)) (by decide)
    rw [text, hname, List.takeWhile_append_of_pos hmarks, List.dropWhile_append_of_pos hmarks]
    simp [hc]

theorem isTerm_text (t : Term) : isTerm t.text = true := by
  obtain ⟨hne, htag⟩ := t.isTag
  simp only [isTerm, t.span_text.2, Bool.and_eq_true, Bool.not_eq_true', List.isEmpty_eq_false_iff,
    List.all_eq_true]
  exact ⟨hne, htag⟩

theorem exists_of_isTerm (h : isTerm cs = true) : ∃ t : Term, t.text = cs := by
  simp only [isTerm, Bool.and_eq_true, Bool.not_eq_true', List.isEmpty_eq_false_iff,
    List.all_eq_true] at h
  have hmarks : cs.takeWhile (· == '!') =
      List.replicate (cs.takeWhile (· == '!')).length '!' := by
    rw [List.eq_replicate_iff]
    refine ⟨rfl, fun c hc => ?_⟩
    exact beq_iff_eq.1 (List.all_eq_true.1 List.all_takeWhile c hc)
  refine ⟨⟨(cs.takeWhile (· == '!')).length, String.ofList (cs.dropWhile (· == '!')), ?_⟩, ?_⟩
  · rw [String.toList_ofList]
    exact h
  · rw [text, ← hmarks, String.toList_ofList, List.takeWhile_append_dropWhile]

private theorem comma_not_mem_text (t : Term) : ',' ∉ t.text := by
  intro h
  rcases List.mem_append.1 h with h | h
  · exact absurd (List.eq_of_mem_replicate h) (by decide)
  · exact absurd (t.isTag.2 ',' h) (by decide)

theorem readTerm_text (t : Term) (line : Option Nat) :
    readTerm line t.text =
      if t.isInvalid then .error ⟨String.ofList t.text, line⟩ else .ok t.formula := by
  unfold readTerm
  simp only [t.span_text.1, t.span_text.2, String.ofList_toList]
  match hmarks : t.marks with
  | 0 => simp [isInvalid, formula, hmarks]
  | 1 => simp [isInvalid, formula, hmarks]
  | n + 2 => simp [isInvalid, hmarks, List.replicate_succ]

theorem eval_formula {t : Term} (h : t.isInvalid = false) (tags : NameSet) :
    t.formula.eval tags = true ↔ t.Holds tags := by
  simp only [isInvalid, decide_eq_false_iff_not] at h
  by_cases hzero : t.marks = 0
  · simp [formula, Holds, hzero, Expr.eval]
  · have hone : t.marks = 1 := by omega
    simp [formula, Holds, hone, Expr.eval]

end Term

/-! ## Alternatives -/

/-- A field that counts: one term or more, with commas between them. -/
structure Alternative where
  first : Term
  more : List Term

namespace Alternative

def terms (a : Alternative) : List Term :=
  a.first :: a.more

def text (a : Alternative) : List Char :=
  [','].intercalate (a.terms.map Term.text)

def formula (a : Alternative) : Expr :=
  Expr.conjoin a.first.formula (a.more.map Term.formula)

theorem termsOf_text (a : Alternative) : termsOf a.text = a.terms.map Term.text := by
  apply List.splitOn_intercalate
  · intro l hl
    obtain ⟨t, -, rfl⟩ := List.mem_map.1 hl
    exact t.comma_not_mem_text
  · simp [terms]

theorem isTermList_text (a : Alternative) : isTermList a.text = true := by
  rw [isTermList, termsOf_text, List.all_map, List.all_eq_true]
  exact fun t _ => t.isTerm_text

end Alternative

private theorem exists_map_text {xs : List (List Char)} (h : ∀ cs ∈ xs, isTerm cs = true) :
    ∃ ts : List Term, ts.map Term.text = xs := by
  induction xs with
  | nil => exact ⟨[], rfl⟩
  | cons cs xs ih =>
    obtain ⟨hcs, hxs⟩ := List.forall_mem_cons.1 h
    obtain ⟨t, ht⟩ := Term.exists_of_isTerm hcs
    obtain ⟨ts, hts⟩ := ih hxs
    exact ⟨t :: ts, by rw [List.map_cons, ht, hts]⟩

private theorem isTermList_iff : isTermList field = true ↔ ∃ a : Alternative, a.text = field := by
  constructor
  · intro h
    obtain ⟨ts, hts⟩ := exists_map_text (List.all_eq_true.1 h)
    cases ts with
    | nil => exact absurd hts.symm (List.splitOnP_ne_nil _ field)
    | cons t ts =>
      refine ⟨⟨t, ts⟩, ?_⟩
      rw [Alternative.text, Alternative.terms, hts]
      exact List.intercalate_splitOn ','
  · rintro ⟨a, rfl⟩
    exact a.isTermList_text

theorem exists_map_alternative_text {fs : List (List Char)}
    (h : ∀ field ∈ fs, isTermList field = true) :
    ∃ as : List Alternative, fs = as.map Alternative.text := by
  induction fs with
  | nil => exact ⟨[], rfl⟩
  | cons field fs ih =>
    obtain ⟨hfield, hmore⟩ := List.forall_mem_cons.1 h
    obtain ⟨a, rfl⟩ := isTermList_iff.1 hfield
    obtain ⟨as, rfl⟩ := ih hmore
    exact ⟨a :: as, rfl⟩

/-! ## Reading -/

def Term.error (line : Option Nat) (t : Term) : InvalidTerm :=
  ⟨String.ofList t.text, line⟩

/-- The result of reading in which a term was found to be invalid, or none was. -/
def unlessInvalid {α : Type} (line : Option Nat) (found : Option Term) (read : α) :
    Except InvalidTerm α :=
  found.elim (.ok read) fun t => .error (t.error line)

/-- Steps of which some find an invalid term end with the first that is found. -/
theorem mapM_unlessInvalid {α β : Type} {f : α → Except InvalidTerm β}
    {found? : α → Option Term} {g : α → β}
    (h : ∀ x, f x = unlessInvalid line (found? x) (g x)) (xs : List α) :
    xs.mapM f = unlessInvalid line (xs.findSome? found?) (xs.map g) := by
  induction xs with
  | nil => rfl
  | cons x xs ih =>
    rw [List.mapM_cons, List.findSome?_cons, h x, ih]
    cases found? x with
    | some t => rfl
    | none => cases xs.findSome? found? <;> rfl

theorem mapM_readTerm (line : Option Nat) (ts : List Term) :
    (ts.map Term.text).mapM (readTerm line) =
      unlessInvalid line (ts.find? Term.isInvalid) (ts.map Term.formula) := by
  have hstep : ∀ t : Term, (readTerm line ∘ Term.text) t =
      unlessInvalid line (Option.guard Term.isInvalid t) t.formula := by
    intro t
    rw [Function.comp_apply, t.readTerm_text]
    cases hinvalid : t.isInvalid with
    | true => simp [Option.guard, hinvalid, unlessInvalid, Term.error]
    | false => simp [Option.guard, hinvalid, unlessInvalid]
  rw [List.mapM_map, mapM_unlessInvalid hstep, List.findSome?_guard]

theorem readField_text (line : Option Nat) (a : Alternative) :
    readField line a.text = unlessInvalid line (a.terms.find? Term.isInvalid) (some a.formula) := by
  rw [readField, a.termsOf_text, mapM_readTerm]
  cases a.terms.find? Term.isInvalid <;> rfl

theorem mapM_readField (line : Option Nat) (as : List Alternative) :
    (as.map Alternative.text).mapM (readField line) =
      unlessInvalid line ((as.flatMap Alternative.terms).find? Term.isInvalid)
        (as.map fun a => some a.formula) := by
  have hstep : ∀ a : Alternative, (readField line ∘ Alternative.text) a =
      unlessInvalid line (a.terms.find? Term.isInvalid) (some a.formula) :=
    readField_text line
  rw [List.mapM_map, mapM_unlessInvalid hstep, List.find?_flatMap]

theorem readPlusBuild_of_fields {comment : String} {as : List Alternative}
    (h : plusBuildFields comment.toList = as.map Alternative.text) (line : Option Nat) :
    readPlusBuild comment line =
      unlessInvalid line ((as.flatMap Alternative.terms).find? Term.isInvalid)
        (Expr.anyOf (as.map Alternative.formula)) := by
  have hformulas : (as.map fun a => some a.formula).filterMap id =
      as.map Alternative.formula := by
    rw [List.filterMap_map, Function.id_comp, List.filterMap_eq_map']
  rw [readPlusBuild, h, mapM_readField]
  cases (as.flatMap Alternative.terms).find? Term.isInvalid with
  | some t => rfl
  | none =>
    change Except.ok (Expr.anyOf ((as.map fun a => some a.formula).filterMap id)) = _
    rw [hformulas]
    rfl

/-! ## Values -/

theorem Alternative.eval_formula {a : Alternative} (h : ∀ t ∈ a.terms, t.isInvalid = false)
    (tags : NameSet) : a.formula.eval tags = true ↔ ∀ t ∈ a.terms, t.Holds tags := by
  rw [formula, Expr.eval_conjoin, ← List.map_cons, List.all_map, List.all_eq_true]
  exact forall₂_congr fun t ht => Term.eval_formula (h t ht) tags

theorem exists_anyOf {as : List Alternative} (hne : as ≠ [])
    (h : ∀ t ∈ as.flatMap Alternative.terms, t.isInvalid = false) :
    ∃ e, Expr.anyOf (as.map Alternative.formula) = some e ∧
      ∀ tags, e.eval tags = true ↔ ∃ a ∈ as, ∀ t ∈ a.terms, t.Holds tags := by
  have hvalid : ∀ a ∈ as, ∀ t ∈ a.terms, t.isInvalid = false := fun a ha t ht =>
    h t (List.mem_flatMap.2 ⟨a, ha, ht⟩)
  cases as with
  | nil => exact absurd rfl hne
  | cons a as =>
    refine ⟨_, rfl, fun tags => ?_⟩
    rw [Expr.eval_disjoin, ← List.map_cons, List.any_map, List.any_eq_true]
    exact exists_congr fun b => and_congr_right fun hb => Alternative.eval_formula (hvalid b hb) tags

/-! ## Comments -/

/-- A `+build` comment with what follows the mark: nothing, or a text that stands apart from it. -/
def IsPlusBuild (comment body : List Char) : Prop :=
  ∃ lead gap, (∀ c ∈ lead, isBlank c = true) ∧ (∀ c ∈ gap, isBlank c = true) ∧
    comment = lead ++ '/' :: '/' :: gap ++ "+build".toList ++ body ∧
    body.head?.all isBlank = true

/-- The fields of a text begin with some alternatives, and not with one more. -/
structure OpensWith (body : List Char) (as : List Alternative) : Prop where
  isPrefix : as.map Alternative.text <+: fields body
  ends : ∀ a : Alternative, ¬ (as ++ [a]).map Alternative.text <+: fields body

def BeginsOutside (cs : List Char) : Prop :=
  ∃ field, (fields cs).head? = some field ∧ ∀ a : Alternative, a.text ≠ field

theorem IsPlusBuild.plusBuildBody? (h : IsPlusBuild comment body) :
    plusBuildBody? (trim comment) = some (trimRight body) := by
  obtain ⟨lead, gap, hlead, hgap, rfl, hbody⟩ := h
  have hmark : trimRight ('/' :: '/' :: gap ++ "+build".toList) =
      '/' :: '/' :: gap ++ "+build".toList := by
    simp [trimRight, isBlank]
  have htrim : trim (lead ++ '/' :: '/' :: gap ++ "+build".toList ++ body) =
      '/' :: '/' :: (gap ++ ("+build".toList ++ trimRight body)) := by
    have hleft : trimLeft (lead ++ '/' :: '/' :: gap ++ "+build".toList ++ body) =
        '/' :: '/' :: gap ++ "+build".toList ++ body := by
      rw [List.append_assoc, List.append_assoc, trimLeft_append hlead]
      simp [trimLeft, isBlank]
    rw [trim, hleft, trimRight_append hmark]
    simp
  have hrest : trimLeft (gap ++ ("+build".toList ++ trimRight body)) =
      "+build".toList ++ trimRight body := by
    rw [trimLeft_append hgap]
    simp [trimLeft, isBlank]
  have hprefix := isPrefixOf?_eq_some.2 (rfl : "+build".toList ++ trimRight body = _)
  rw [htrim, Source.plusBuildBody?, hrest, afterWord?, hprefix]
  cases htail : trimRight body with
  | nil => rfl
  | cons c cs =>
    obtain ⟨bs, hsplit, -⟩ := exists_trimRight_append body
    rw [htail] at hsplit
    have hc : isBlank c = true := by
      rw [hsplit] at hbody
      simpa using hbody
    simp [hc]

theorem plusBuildFields_of_isPlusBuild (h : IsPlusBuild comment body) :
    plusBuildFields comment = (fields body).takeWhile isTermList := by
  rw [plusBuildFields, h.plusBuildBody?]
  simp only [fields_trimRight]

private theorem takeWhile_append_texts (as : List Alternative) (fs : List (List Char)) :
    (as.map Alternative.text ++ fs).takeWhile isTermList =
      as.map Alternative.text ++ fs.takeWhile isTermList := by
  apply List.takeWhile_append_of_pos
  intro field hfield
  obtain ⟨a, -, rfl⟩ := List.mem_map.1 hfield
  exact a.isTermList_text

private theorem takeWhile_eq_nil_of_outside {fs : List (List Char)}
    (h : ∀ field, fs.head? = some field → ∀ a : Alternative, a.text ≠ field) :
    fs.takeWhile isTermList = [] := by
  cases fs with
  | nil => rfl
  | cons field fs =>
    have hfield : ¬ isTermList field = true := by
      rw [isTermList_iff]
      rintro ⟨a, ha⟩
      exact h field rfl a ha
    rw [List.takeWhile_cons_of_neg hfield]

theorem opensWith_iff {as : List Alternative} :
    OpensWith body as ↔ (fields body).takeWhile isTermList = as.map Alternative.text := by
  constructor
  · rintro ⟨⟨rest, hrest⟩, hends⟩
    have houtside : rest.takeWhile isTermList = [] := by
      apply takeWhile_eq_nil_of_outside
      rintro field hfield a rfl
      obtain ⟨more, rfl⟩ := List.head?_eq_some_iff.1 hfield
      exact hends a ⟨more, by simp [← hrest]⟩
    rw [← hrest, takeWhile_append_texts, houtside, List.append_nil]
  · intro h
    refine ⟨h ▸ List.takeWhile_prefix isTermList, fun a hmore => ?_⟩
    obtain ⟨rest, hrest⟩ := hmore
    rw [← hrest, takeWhile_append_texts] at h
    have hlength := congrArg List.length h
    simp only [List.length_append, List.length_map, List.length_singleton] at hlength
    omega

theorem exists_opensWith (body : List Char) : ∃ as, OpensWith body as := by
  have hfields : ∀ field ∈ (fields body).takeWhile isTermList, isTermList field = true :=
    List.all_eq_true.1 List.all_takeWhile
  obtain ⟨as, has⟩ := exists_map_alternative_text hfields
  exact ⟨as, opensWith_iff.2 has⟩

/-! ## Free text -/

/-- A `+build` comment in two parts, the first of which ends at the blank behind some alternatives. -/
structure CutBehind (as : List Alternative) (comment start tail : List Char) : Prop where
  eq_append : comment = start ++ tail
  start : ∃ front, IsPlusBuild start front ∧ EndsInBlank front ∧
    fields front = as.map Alternative.text

theorem IsPlusBuild.append (h : IsPlusBuild comment front) (hne : front ≠ []) (more : List Char) :
    IsPlusBuild (comment ++ more) (front ++ more) := by
  obtain ⟨lead, gap, hlead, hgap, rfl, hfront⟩ := h
  refine ⟨lead, gap, hlead, hgap, by simp, ?_⟩
  cases front with
  | nil => exact absurd rfl hne
  | cons c front => exact hfront

/-- Where not all fields are alternatives, the first that is none begins a part of the comment. -/
theorem exists_cutBehind {as : List Alternative} (h : IsPlusBuild comment body)
    (has : OpensWith body as) (hmore : fields body ≠ as.map Alternative.text) :
    ∃ start tail, CutBehind as comment start tail ∧ BeginsOutside tail := by
  obtain ⟨lead, gap, hlead, hgap, rfl, hbody⟩ := h
  obtain ⟨rest, hrest⟩ := has.isPrefix
  cases rest with
  | nil => exact absurd (by simpa using hrest.symm) hmore
  | cons field rest =>
    obtain ⟨front, tail, rfl, hblank, hfront, htail⟩ :=
      exists_of_fields_eq_append hbody hrest.symm
    have hhead : front.head?.all isBlank = true := by
      cases front with
      | nil => rfl
      | cons c front => exact hbody
    refine ⟨lead ++ '/' :: '/' :: gap ++ "+build".toList ++ front, tail, ⟨by simp, front, ?_,
      hblank, hfront⟩, field, by rw [htail]; rfl, ?_⟩
    · exact ⟨lead, gap, hlead, hgap, rfl, hhead⟩
    · rintro a rfl
      exact has.ends a ⟨rest, by simp [← hrest]⟩

theorem CutBehind.plusBuildFields_eq {as : List Alternative} {start : List Char}
    (h : CutBehind as comment start tail) (hother : BeginsOutside other) :
    plusBuildFields (start ++ other) = as.map Alternative.text := by
  obtain ⟨front, hstart, hblank, hfront⟩ := h.start
  obtain ⟨field, hfield, houtside⟩ := hother
  have hnone : (fields other).takeWhile isTermList = [] := by
    apply takeWhile_eq_nil_of_outside
    intro first hfirst
    obtain rfl := Option.some.inj (hfield.symm.trans hfirst)
    exact houtside
  rw [plusBuildFields_of_isPlusBuild (hstart.append hblank.ne_nil other), hblank.fields_append,
    hfront, takeWhile_append_texts, hnone, List.append_nil]

/-- A `+build` comment says what the alternatives say that the text behind the mark begins with. Where
it begins with none there is no constraint; the first invalid term among them is an error; otherwise one
of them has to hold, all of its terms. What follows the alternatives may be replaced by any other text
that does not begin with one. -/
theorem readPlusBuild_alternatives {comment : String} (line : Option Nat)
    (h : IsPlusBuild comment.toList body) :
    (∃ as, OpensWith body as) ∧
      ∀ as, OpensWith body as →
        (as = [] → readPlusBuild comment line = .ok none) ∧
        (∀ t, (as.flatMap Alternative.terms).find? Term.isInvalid = some t →
          readPlusBuild comment line = .error ⟨String.ofList t.text, line⟩) ∧
        (as ≠ [] → (∀ t ∈ as.flatMap Alternative.terms, t.isInvalid = false) →
          ∃ e, readPlusBuild comment line = .ok (some e) ∧
            ∀ tags, e.eval tags = true ↔ ∃ a ∈ as, ∀ t ∈ a.terms, t.Holds tags) ∧
        (fields body ≠ as.map Alternative.text →
          ∃ start tail, CutBehind as comment.toList start tail ∧ BeginsOutside tail) ∧
        ∀ start tail, CutBehind as comment.toList start tail → ∀ other, BeginsOutside other →
          readPlusBuild (String.ofList (start ++ other)) line = readPlusBuild comment line := by
  refine ⟨exists_opensWith body, fun as has => ?_⟩
  have hread := readPlusBuild_of_fields
    ((plusBuildFields_of_isPlusBuild h).trans (opensWith_iff.1 has)) line
  refine ⟨?_, ?_, ?_, exists_cutBehind h has, ?_⟩
  · rintro rfl
    exact hread
  · intro t ht
    rw [hread, ht]
    rfl
  · intro hne hvalid
    obtain ⟨e, he, heval⟩ := exists_anyOf hne hvalid
    have hnone : (as.flatMap Alternative.terms).find? Term.isInvalid = none :=
      List.find?_eq_none.2 fun t ht => by simp [hvalid t ht]
    refine ⟨e, ?_, heval⟩
    rw [hread, hnone, he]
    rfl
  · intro start tail hcut other hother
    have hfields := hcut.plusBuildFields_eq hother
    rw [hread]
    exact readPlusBuild_of_fields (by rw [String.toList_ofList, hfields]) line

/-- Two alternatives in front of a remark, which is left out with the invalid term in it and may as
well be another. -/
theorem readPlusBuild_alternatives_remark :
    IsPlusBuild "// +build linux,386 !cgo on: !!x".toList " linux,386 !cgo on: !!x".toList ∧
      (∃ e, readPlusBuild "// +build linux,386 !cgo on: !!x" (some 3) = .ok (some e) ∧
        ∀ tags, e.eval tags = true ↔ ("linux" ∈ tags ∧ "386" ∈ tags) ∨ "cgo" ∉ tags) ∧
      readPlusBuild "// +build linux,386 !cgo (all)" (some 3) =
        readPlusBuild "// +build linux,386 !cgo on: !!x" (some 3) := by
  let as : List Alternative :=
    [⟨⟨0, "linux", by decide⟩, [⟨0, "386", by decide⟩]⟩, ⟨⟨1, "cgo", by decide⟩, []⟩]
  have hcomment : IsPlusBuild "// +build linux,386 !cgo on: !!x".toList
      " linux,386 !cgo on: !!x".toList :=
    ⟨[], [' '], List.forall_mem_nil _, List.forall_mem_singleton.2 rfl, by decide, by decide⟩
  have hstart : IsPlusBuild "// +build linux,386 !cgo ".toList " linux,386 !cgo ".toList :=
    ⟨[], [' '], List.forall_mem_nil _, List.forall_mem_singleton.2 rfl, by decide, by decide⟩
  have has : OpensWith " linux,386 !cgo on: !!x".toList as := opensWith_iff.2 (by decide)
  obtain ⟨-, -, hread, -, hreplace⟩ := (readPlusBuild_alternatives (some 3) hcomment).2 as has
  refine ⟨hcomment, ?_, ?_⟩
  · obtain ⟨e, he, heval⟩ := hread (by simp [as]) (by decide)
    refine ⟨e, he, fun tags => (heval tags).trans ?_⟩
    simp [as, Alternative.terms, Term.Holds]
  · have hcut : CutBehind as "// +build linux,386 !cgo on: !!x".toList
        "// +build linux,386 !cgo ".toList "on: !!x".toList :=
      ⟨by decide, _, hstart, ⟨" linux,386 !cgo".toList, ' ', by decide, by decide⟩, by decide⟩
    have hother : BeginsOutside "(all)".toList := by
      refine ⟨"(all)".toList, by decide, fun a ha => ?_⟩
      exact absurd (isTermList_iff.2 ⟨a, ha⟩) (by decide)
    exact hreplace _ _ hcut _ hother

end ImportSurvey.Constraint
