import ImportSurvey.Proofs.Json.Parts
import ImportSurvey.Proofs.Json.Readers
import ImportSurvey.Proofs.Json.Scalars
import ImportSurvey.Proofs.Table
/-!
# Written values

A value that is written reads back, in every layout that has nothing but blanks between the signs,
if it has no number with a fraction or an exponent and no object with a key twice. The order of the
members is kept.
-/

namespace ImportSurvey.Json

open Text

variable {layout : Layout} {depth : Nat} {cs bs rest after : List Char} {c : Char} {v w : Json}
  {vs items : List Json} {e : String × Json} {ms members : List (String × Json)}

/-! ## Blanks -/

def AllSpace (cs : List Char) : Prop :=
  ∀ c ∈ cs, isSpace c = true

structure Layout.IsBlank (layout : Layout) : Prop where
  opening : ∀ depth, AllSpace (layout.opening depth)
  between : ∀ depth, ∃ bs, layout.between depth = ',' :: bs ∧ AllSpace bs
  closing : ∀ depth, AllSpace (layout.closing depth)

theorem allSpace_lineAt (depth : Nat) : AllSpace (lineAt depth) := by
  intro c hc
  rcases List.mem_cons.1 hc with rfl | hc
  · rfl
  · rw [List.eq_of_mem_replicate hc]
    rfl

theorem Layout.isBlank_lines : Layout.lines.IsBlank where
  opening := allSpace_lineAt
  between depth := ⟨lineAt depth, rfl, allSpace_lineAt depth⟩
  closing := allSpace_lineAt

theorem skipSpace_append (h : AllSpace bs) (cs : List Char) : skipSpace (bs ++ cs) = skipSpace cs :=
  List.dropWhile_append_of_pos h

theorem skipSpace_cons (h : isSpace c = false) (cs : List Char) : skipSpace (c :: cs) = c :: cs :=
  List.dropWhile_cons_of_neg (by simp [h])

theorem outcome_value_append (h : AllSpace bs) (cs : List Char) :
    outcome (value? (bs ++ cs)) = outcome (value? cs) := by
  rw [outcome_value, skipSpace_append h, outcome_value]

theorem endsNumber_nil : EndsNumber [] := by
  intro c hc
  cases hc

theorem endsNumber_cons (h : c.isDigit = false ∧ c ≠ '.' ∧ c ≠ 'e' ∧ c ≠ 'E') (cs : List Char) :
    EndsNumber (c :: cs) := by
  intro d hd
  rwa [← Option.some.inj hd]

private theorem endsNumber_of_isSpace (h : isSpace c = true) (cs : List Char) :
    EndsNumber (c :: cs) := by
  simp only [isSpace, Bool.or_eq_true, beq_iff_eq, or_assoc] at h
  rcases h with rfl | rfl | rfl | rfl
  all_goals exact endsNumber_cons (by decide) cs

theorem AllSpace.endsNumber_append (h : AllSpace bs) (hrest : EndsNumber rest) :
    EndsNumber (bs ++ rest) := by
  cases bs with
  | nil => exact hrest
  | cons b bs => exact endsNumber_of_isSpace (h b List.mem_cons_self) _

/-! ## One value from its parts -/

theorem outcome_value_of_scalar (h : scalar? (c :: cs) = some (v, rest)) (hspace : isSpace c = false)
    (hc : c ≠ '\x22' ∧ c ≠ '[' ∧ c ≠ '\x7b') : outcome (value? (c :: cs)) = some (v, rest) := by
  rw [outcome_value, skipSpace_cons hspace]
  simp only [beq_iff_eq, hc.1, hc.2.1, hc.2.2, if_false, h]

private theorem exists_intChars_eq_cons (n : Int) :
    ∃ c cs, intChars n = c :: cs ∧ isSpace c = false ∧ c ≠ '\x22' ∧ c ≠ '[' ∧ c ≠ '\x7b' := by
  cases n with
  | ofNat n =>
    obtain ⟨d, ds, hds, hd⟩ := exists_toDigits_eq_cons n
    have hother : ∀ c, c.isDigit = false → d ≠ c := by
      rintro c hc rfl
      rw [hd] at hc
      contradiction
    refine ⟨d, ds, hds, ?_, hother _ rfl, hother _ rfl, hother _ rfl⟩
    simp only [isSpace, Bool.or_eq_false_iff, beq_eq_false_iff_ne]
    exact ⟨⟨⟨hother _ rfl, hother _ rfl⟩, hother _ rfl⟩, hother _ rfl⟩
  | negSucc n => exact ⟨'-', Nat.toDigits 10 (n + 1), rfl, rfl, by decide⟩

theorem outcome_string_chars (s : String) (rest : List Char) :
    outcome (string? (s.toList.flatMap escapedChar ++ '\x22' :: rest)) = some (s, rest) := by
  rw [outcome_string, stringTail?_flatMap_escapedChar, Option.map_some, joinUnits_flatMap_units,
    String.ofList_toList]

theorem outcome_value_of_close (h : skipSpace cs = ']' :: after) : outcome (value? cs) = none := by
  rw [outcome_value, h]
  rfl

theorem outcome_value_of_items (h : outcome (items? cs) = some (items, rest)) :
    outcome (value? ('[' :: cs)) = some (arr items, rest) := by
  rw [outcome_value, skipSpace_cons rfl]
  simp only [Char.reduceBEq, Bool.false_eq_true, if_false, if_true, h, Option.map_some]
  split
  · rename_i hclose
    rw [outcome_items, outcome_value_of_close hclose] at h
    contradiction
  · rfl

theorem outcome_value_of_members (h : outcome (members? cs) = some (members, rest)) :
    outcome (value? ('\x7b' :: cs)) = some (obj (Table.ofList members), rest) := by
  rw [outcome_value, skipSpace_cons rfl]
  simp only [Char.reduceBEq, Bool.false_eq_true, if_false, if_true, h, Option.map_some]
  split
  · rename_i hclose
    rw [outcome_members, hclose] at h
    contradiction
  · rfl

theorem outcome_items_last (hv : outcome (value? cs) = some (v, after))
    (hclose : skipSpace after = ']' :: rest) : outcome (items? cs) = some ([v], rest) := by
  rw [outcome_items, hv, Option.bind_some]
  simp only [hclose]

theorem outcome_items_cons {more : List Char} (hv : outcome (value? cs) = some (v, after))
    (hcomma : skipSpace after = ',' :: more) (hmore : outcome (items? more) = some (vs, rest)) :
    outcome (items? cs) = some (v :: vs, rest) := by
  rw [outcome_items, hv, Option.bind_some]
  simp only [hcomma, hmore, Option.map_some]

theorem membersFrom_last (hclose : skipSpace after = '\x7d' :: rest) :
    membersFrom e after = some ([e], rest) := by
  simp only [membersFrom, hclose]

theorem membersFrom_cons {more : List Char} (hcomma : skipSpace after = ',' :: more)
    (hmore : outcome (members? more) = some (ms, rest)) :
    membersFrom e after = some (e :: ms, rest) := by
  simp only [membersFrom, hcomma, hmore, Option.map_some]

theorem outcome_members_first {key : String} {tail : List Char} (hbs : AllSpace bs)
    (hv : outcome (value? tail) = some (v, after)) :
    outcome (members? (bs ++ (stringChars key ++ ':' :: ' ' :: tail))) =
      membersFrom (key, v) after := by
  have hspace : AllSpace [' '] := List.forall_mem_singleton.2 rfl
  have hblank : outcome (value? (' ' :: tail)) = some (v, after) := by
    rw [← hv]
    exact outcome_value_append hspace tail
  have hkey : stringChars key ++ ':' :: ' ' :: tail =
      '\x22' :: (key.toList.flatMap escapedChar ++ '\x22' :: ':' :: ' ' :: tail) := by
    rw [stringChars, List.append_assoc]
    rfl
  rw [hkey, outcome_members, skipSpace_append hbs, skipSpace_cons rfl]
  simp only [outcome_string_chars, Option.bind_some, skipSpace_cons (c := ':') rfl, hblank]

/-! ## Items and members -/

/-- A value is read from what is written for it, in front of whatever ends a number. -/
def ReadsBack (layout : Layout) (v : Json) : Prop :=
  ∀ depth rest, EndsNumber rest → outcome (value? (chars layout depth v ++ rest)) = some (v, rest)

theorem outcome_items_chars (hlayout : layout.IsBlank) (hbs : AllSpace bs)
    (h : ∀ w ∈ v :: vs, ReadsBack layout w) :
    outcome (items? (bs ++ (chars layout (depth + 1) v ++ (itemChars layout (depth + 1) vs ++
      (layout.closing depth ++ ']' :: rest))))) = some (v :: vs, rest) := by
  have hfirst : ∀ tail, EndsNumber tail →
      outcome (value? (bs ++ (chars layout (depth + 1) v ++ tail))) = some (v, tail) := by
    intro tail htail
    rw [outcome_value_append hbs]
    exact h v List.mem_cons_self (depth + 1) tail htail
  induction vs generalizing v bs with
  | nil =>
    have hends := (hlayout.closing depth).endsNumber_append (endsNumber_cons (c := ']') (by decide) rest)
    have hclose : skipSpace (layout.closing depth ++ ']' :: rest) = ']' :: rest := by
      rw [skipSpace_append (hlayout.closing depth), skipSpace_cons rfl]
    exact outcome_items_last (hfirst _ hends) hclose
  | cons w vs ih =>
    obtain ⟨more, hbetween, hmore⟩ := hlayout.between (depth + 1)
    have hw := h w (List.mem_cons_of_mem v List.mem_cons_self)
    have hrest := ih hmore (fun u hu => h u (List.mem_cons_of_mem v hu)) fun tail htail => by
      rw [outcome_value_append hmore]
      exact hw (depth + 1) tail htail
    rw [itemChars, hbetween, List.cons_append, List.cons_append, List.cons_append, List.append_assoc,
      List.append_assoc]
    exact outcome_items_cons (hfirst _ (endsNumber_cons (by decide) _)) (skipSpace_cons rfl _) hrest

theorem outcome_members_chars (hlayout : layout.IsBlank) (hbs : AllSpace bs)
    (h : ∀ m ∈ e :: ms, ReadsBack layout m.2) :
    outcome (members? (bs ++ (stringChars e.1 ++ ':' :: ' ' :: (chars layout (depth + 1) e.2 ++
      (memberChars layout (depth + 1) ms ++ (layout.closing depth ++ '\x7d' :: rest)))))) =
        some (e :: ms, rest) := by
  induction ms generalizing e bs with
  | nil =>
    have hends := (hlayout.closing depth).endsNumber_append
      (endsNumber_cons (c := '\x7d') (by decide) rest)
    have hclose : skipSpace (layout.closing depth ++ '\x7d' :: rest) = '\x7d' :: rest := by
      rw [skipSpace_append (hlayout.closing depth), skipSpace_cons rfl]
    rw [memberChars, List.nil_append,
      outcome_members_first hbs (h e List.mem_cons_self (depth + 1) _ hends),
      membersFrom_last hclose]
  | cons m ms ih =>
    obtain ⟨more, hbetween, hmore⟩ := hlayout.between (depth + 1)
    have hrest := ih hmore fun u hu => h u (List.mem_cons_of_mem e hu)
    obtain ⟨key, w⟩ := m
    have hchars : memberChars layout (depth + 1) ((key, w) :: ms) ++
        (layout.closing depth ++ '\x7d' :: rest) =
          ',' :: (more ++ (stringChars key ++ ':' :: ' ' :: (chars layout (depth + 1) w ++
            (memberChars layout (depth + 1) ms ++ (layout.closing depth ++ '\x7d' :: rest))))) := by
      simp only [memberChars, hbetween, List.cons_append, List.append_assoc]
    rw [hchars, outcome_members_first hbs
      (h e List.mem_cons_self (depth + 1) _ (endsNumber_cons (by decide) _)),
      membersFrom_cons (skipSpace_cons rfl _) hrest]

/-! ## Values -/

theorem readsBack_arr (hlayout : layout.IsBlank) (h : ∀ w ∈ items, ReadsBack layout w) :
    ReadsBack layout (arr items) := by
  intro depth rest _
  cases items with
  | nil =>
    rw [chars, outcome_value]
    rfl
  | cons v vs =>
    have hchars : chars layout depth (arr (v :: vs)) ++ rest =
        '[' :: (layout.opening (depth + 1) ++ (chars layout (depth + 1) v ++
          (itemChars layout (depth + 1) vs ++ (layout.closing depth ++ ']' :: rest)))) := by
      simp only [chars, List.cons_append, List.append_assoc, List.nil_append]
    rw [hchars]
    exact outcome_value_of_items (outcome_items_chars hlayout (hlayout.opening _) h)

theorem readsBack_obj (hlayout : layout.IsBlank) (hkeys : (Table.keys members).Nodup)
    (h : ∀ m ∈ members, ReadsBack layout m.2) : ReadsBack layout (obj members) := by
  intro depth rest _
  cases members with
  | nil =>
    rw [chars, outcome_value]
    rfl
  | cons m ms =>
    have hchars : chars layout depth (obj (m :: ms)) ++ rest =
        '\x7b' :: (layout.opening (depth + 1) ++ (stringChars m.1 ++ ':' :: ' ' ::
          (chars layout (depth + 1) m.2 ++ (memberChars layout (depth + 1) ms ++
            (layout.closing depth ++ '\x7d' :: rest))))) := by
      simp only [chars, List.cons_append, List.append_assoc, List.nil_append]
    rw [hchars, outcome_value_of_members (outcome_members_chars hlayout (hlayout.opening _) h),
      Table.ofList_eq_self hkeys]

theorem readsBack_str (layout : Layout) (s : String) : ReadsBack layout (str s) := by
  intro depth rest _
  have hchars : chars layout depth (str s) ++ rest =
      '\x22' :: (s.toList.flatMap escapedChar ++ '\x22' :: rest) := by
    rw [chars, stringChars, List.append_assoc]
    rfl
  rw [hchars, outcome_value, skipSpace_cons rfl]
  simp only [outcome_string_chars, Option.map_some, beq_self_eq_true, if_true]

theorem readsBack_int (layout : Layout) (n : Int) : ReadsBack layout (int n) := by
  intro depth rest hrest
  have hread := scalar?_intChars hrest n
  obtain ⟨c, cs, hchars, hspace, hc⟩ := exists_intChars_eq_cons n
  rw [hchars, List.cons_append] at hread
  rw [chars, hchars, List.cons_append, outcome_value_of_scalar hread hspace hc]

/-- What is written for a value is read as this value. -/
theorem readsBack (hlayout : layout.IsBlank) (hfloat : v.isFloatFree = true)
    (hkeys : v.hasDistinctKeys = true) : ReadsBack layout v := by
  induction v using inductionOn with
  | null => exact fun _ _ _ => outcome_value_of_scalar (scalar?_null _) rfl (by decide)
  | bool b =>
    intro depth rest _
    cases b
    · exact outcome_value_of_scalar (scalar?_bool false rest) rfl (by decide)
    · exact outcome_value_of_scalar (scalar?_bool true rest) rfl (by decide)
  | int n => exact readsBack_int layout n
  | float x => contradiction
  | str s => exact readsBack_str layout s
  | arr items ih =>
    exact readsBack_arr hlayout fun w hw =>
      ih w hw (isFloatFree_arr.1 hfloat w hw) (hasDistinctKeys_arr.1 hkeys w hw)
  | obj members ih =>
    obtain ⟨hnodup, hparts⟩ := hasDistinctKeys_obj.1 hkeys
    exact readsBack_obj hlayout hnodup fun m hm =>
      ih m hm (isFloatFree_obj.1 hfloat m hm) (hparts m hm)

theorem parse?_chars (hlayout : layout.IsBlank) (hfloat : v.isFloatFree = true)
    (hkeys : v.hasDistinctKeys = true) (depth : Nat) (hbs : AllSpace bs) :
    parse? (chars layout depth v ++ bs) = some v := by
  have hends : EndsNumber bs := by
    have happend := hbs.endsNumber_append endsNumber_nil
    rwa [List.append_nil] at happend
  have hread := readsBack hlayout hfloat hkeys depth bs hends
  have hskip : skipSpace bs = [] := by
    have happend := skipSpace_append hbs []
    rwa [List.append_nil] at happend
  rw [parse?]
  obtain ⟨read, hread, hpair⟩ := Option.map_eq_some_iff.1 hread
  simp only [Prod.mk.injEq] at hpair
  rw [hread, Option.bind_some, hpair.1, hpair.2, hskip]
  rfl

end ImportSurvey.Json
