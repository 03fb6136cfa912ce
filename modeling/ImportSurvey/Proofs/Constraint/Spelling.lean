import ImportSurvey.Constraint.GoBuild
import ImportSurvey.Proofs.Text.Trim
/-!
# The symbols that a text spells

Which symbols a text spells, said without reading it: marks and tags in a row, blanks between them
or not, and every tag as long as it can be. The reader of symbols finds exactly these.
-/

namespace ImportSurvey.Constraint

open Text

variable {c : Char} {cs bs rest name : List Char} {s : Symbol} {ss ts : List Symbol}

def Symbol.isMark : Symbol → Bool
  | tag _ => false
  | _ => true

def IsTag (name : List Char) : Prop :=
  name ≠ [] ∧ ∀ c ∈ name, isTagChar c = true

/-- A text that goes on with no character of a tag, so that a tag in front of it is over. -/
def EndsTag (rest : List Char) : Prop :=
  rest.head?.all fun c => !isTagChar c

inductive Spelled : List Char → List Symbol → Prop
  | nil : Spelled [] []
  | blank {c : Char} {cs : List Char} {ss : List Symbol} (hc : isBlank c = true)
      (more : Spelled cs ss) : Spelled (c :: cs) ss
  | mark {s : Symbol} {cs : List Char} {ss : List Symbol} (hs : s.isMark = true)
      (more : Spelled cs ss) : Spelled (s.text.toList ++ cs) (s :: ss)
  | tag {name cs : List Char} {ss : List Symbol} (hname : IsTag name) (hends : EndsTag cs)
      (more : Spelled cs ss) : Spelled (name ++ cs) (.tag (String.ofList name) :: ss)

/-! ## One symbol -/

private theorem symbol?_mark (hs : s.isMark = true) (rest : List Char) :
    symbol? (s.text.toList ++ rest) = some (s, rest) := by
  cases s with
  | tag name => contradiction
  | and => rfl
  | or => rfl
  | not => rfl
  | lparen => rfl
  | rparen => rfl

private theorem takeWhile_tag (hname : ∀ c ∈ name, isTagChar c = true) (hends : EndsTag rest) :
    (name ++ rest).takeWhile isTagChar = name ∧ (name ++ rest).dropWhile isTagChar = rest := by
  rw [List.takeWhile_append_of_pos hname, List.dropWhile_append_of_pos hname]
  cases rest with
  | nil => simp
  | cons c rest =>
    have hc : isTagChar c = false := by simpa [EndsTag] using hends
    simp [hc]

theorem symbol?_tag (hname : IsTag name) (hends : EndsTag rest) :
    symbol? (name ++ rest) = some (.tag (String.ofList name), rest) := by
  obtain ⟨htake, hdrop⟩ := takeWhile_tag hname.2 hends
  obtain ⟨c, more, rfl⟩ := List.exists_cons_of_ne_nil hname.1
  have hc : isTagChar c = true := hname.2 c List.mem_cons_self
  have hne : ∀ d, isTagChar d = false → c ≠ d := by
    rintro d hd rfl
    rw [hc] at hd
    contradiction
  have hand := hne '&' (by decide)
  have hor := hne '|' (by decide)
  have hnot := hne '!' (by decide)
  have hopen := hne '(' (by decide)
  have hclose := hne ')' (by decide)
  rw [List.cons_append] at htake hdrop ⊢
  unfold symbol?
  split
  case h_6 => rw [htake, hdrop]
  all_goals simp_all

theorem symbol?_cases (h : symbol? cs = some (s, rest)) :
    (s.isMark = true ∧ cs = s.text.toList ++ rest) ∨
      ∃ name, IsTag name ∧ EndsTag rest ∧ s = .tag (String.ofList name) ∧ cs = name ++ rest := by
  unfold symbol? at h
  split at h
  case h_6 =>
    right
    split at h
    · contradiction
    · rename_i name hne
      obtain ⟨rfl, rfl⟩ := Prod.mk.inj (Option.some.inj h)
      refine ⟨cs.takeWhile isTagChar, ⟨hne, ?_⟩, ?_, rfl, List.takeWhile_append_dropWhile.symm⟩
      · intro c hc
        exact List.all_eq_true.1 List.all_takeWhile c hc
      · exact all_head?_dropWhile isTagChar cs
  all_goals
    left
    obtain ⟨rfl, rfl⟩ := Prod.mk.inj (Option.some.inj h)
    exact ⟨rfl, rfl⟩

private theorem isBlank_mark (hs : s.isMark = true) : ∀ c ∈ s.text.toList, isBlank c = false := by
  have hall : (s.text.toList.all fun c => !isBlank c) = true := by
    cases s with
    | tag name => contradiction
    | and => rfl
    | or => rfl
    | not => rfl
    | lparen => rfl
    | rparen => rfl
  intro c hc
  simpa using List.all_eq_true.1 hall c hc

theorem IsTag.isBlank (hname : IsTag name) : ∀ c ∈ name, isBlank c = false := by
  intro c hc
  exact isBlank_eq_false_of_isTagChar (hname.2 c hc)

/-! ## All symbols -/

theorem symbols_nil : symbols [] = .ok [] := by
  rw [symbols]
  rfl

theorem symbols_of_ne_nil (h : cs ≠ []) :
    symbols cs =
      match symbol? (trimLeft cs) with
      | none => .error (.unexpectedInput (String.ofList cs))
      | some (s, rest) => (symbols rest).map (s :: ·) := by
  rw [symbols, if_neg (by simpa using h)]
  split <;> simp_all

theorem symbols_of_symbol? (hne : cs ≠ []) (hblank : ∀ c ∈ cs, isBlank c = false)
    (h : symbol? (cs ++ rest) = some (s, rest)) :
    symbols (cs ++ rest) = (symbols rest).map (s :: ·) := by
  obtain ⟨c, more, rfl⟩ := List.exists_cons_of_ne_nil hne
  rw [symbols_of_ne_nil (by simp), List.cons_append,
    trimLeft_cons_of_not_blank (hblank c List.mem_cons_self), ← List.cons_append, h]

theorem symbols_blank (hc : isBlank c = true) (hne : cs ≠ []) (h : symbols cs = .ok ss) :
    symbols (c :: cs) = .ok ss := by
  rw [symbols_of_ne_nil hne] at h
  rw [symbols_of_ne_nil (List.cons_ne_nil c cs), trimLeft_cons hc]
  cases hread : symbol? (trimLeft cs) with
  | none =>
    rw [hread] at h
    contradiction
  | some p =>
    rw [hread] at h
    exact h

/-! ## Blanks around a spelling -/

theorem Spelled.blanks_append (hbs : ∀ c ∈ bs, isBlank c = true) (h : Spelled cs ss) :
    Spelled (bs ++ cs) ss := by
  induction bs with
  | nil => exact h
  | cons b bs ih =>
    have htail : Spelled (bs ++ cs) ss := ih fun c hc => hbs c (List.mem_cons_of_mem b hc)
    exact .blank (hbs b List.mem_cons_self) htail

theorem EndsTag.append_blanks (hbs : ∀ c ∈ bs, isBlank c = true) (h : EndsTag cs) :
    EndsTag (cs ++ bs) := by
  cases cs with
  | cons c cs => exact h
  | nil =>
    cases bs with
    | nil => exact h
    | cons b bs =>
      have hb := hbs b List.mem_cons_self
      cases htag : isTagChar b with
      | false => simp [EndsTag, htag]
      | true =>
        rw [isBlank_eq_false_of_isTagChar htag] at hb
        contradiction

theorem Spelled.append_blanks (hbs : ∀ c ∈ bs, isBlank c = true) (h : Spelled cs ss) :
    Spelled (cs ++ bs) ss := by
  induction h with
  | nil =>
    have hend := Spelled.nil.blanks_append hbs
    simpa using hend
  | blank hc more ih => exact .blank hc ih
  | mark hs more ih =>
    rw [List.append_assoc]
    exact .mark hs ih
  | tag hname hends more ih =>
    rw [List.append_assoc]
    exact .tag hname (hends.append_blanks hbs) ih

theorem EndsTag.trimRight (h : EndsTag cs) : EndsTag (trimRight cs) := by
  obtain ⟨bs, hcs, -⟩ := exists_trimRight_append cs
  cases htrim : Text.trimRight cs with
  | nil => rfl
  | cons c more =>
    rw [htrim] at hcs
    rw [hcs] at h
    exact h

/-! ## The reader of symbols -/

private theorem exists_of_map_eq_ok {α β ε : Type} {f : α → β} {x : Except ε α} {b : β}
    (h : x.map f = .ok b) : ∃ a, x = .ok a ∧ f a = b := by
  cases x with
  | error e => contradiction
  | ok a => exact ⟨a, rfl, Except.ok.inj h⟩

theorem Spelled.of_symbol? (hread : symbol? (trimLeft cs) = some (s, rest))
    (more : Spelled rest ss) : Spelled cs (s :: ss) := by
  have hfront : Spelled (trimLeft cs) (s :: ss) := by
    rcases symbol?_cases hread with ⟨hs, heq⟩ | ⟨name, hname, hends, rfl, heq⟩
    · rw [heq]
      exact .mark hs more
    · rw [heq]
      exact .tag hname hends more
  have hblanks : ∀ c ∈ cs.takeWhile isBlank, isBlank c = true := by
    intro c hc
    exact List.all_eq_true.1 List.all_takeWhile c hc
  have hall := hfront.blanks_append hblanks
  rwa [trimLeft, List.takeWhile_append_dropWhile] at hall

theorem spelled_of_symbols (h : symbols cs = .ok ss) : Spelled cs ss := by
  induction hlength : cs.length using Nat.strongRecOn generalizing cs ss with
  | ind n ih =>
    subst hlength
    by_cases hne : cs = []
    · subst hne
      rw [symbols_nil] at h
      obtain rfl := Except.ok.inj h
      exact .nil
    · rw [symbols_of_ne_nil hne] at h
      cases hread : symbol? (trimLeft cs) with
      | none =>
        rw [hread] at h
        contradiction
      | some p =>
        obtain ⟨s, rest⟩ := p
        rw [hread] at h
        obtain ⟨more, hmore, rfl⟩ := exists_of_map_eq_ok h
        have hlt := symbol?_length_lt hread
        have hle : (trimLeft cs).length ≤ cs.length := (List.dropWhile_suffix isBlank).length_le
        exact .of_symbol? hread (ih rest.length (by omega) hmore rfl)

theorem symbols_of_spelled (h : Spelled cs ss) : symbols (trimRight cs) = .ok ss := by
  induction h with
  | nil => exact symbols_nil
  | @blank c cs ss hc more ih =>
    rw [trimRight_cons hc]
    by_cases hempty : trimRight cs = []
    · rw [if_pos hempty]
      rwa [hempty] at ih
    · rw [if_neg hempty]
      exact symbols_blank hc hempty ih
  | @mark s cs ss hs more ih =>
    have hblank := isBlank_mark hs
    have hne : s.text.toList ≠ [] := by
      cases s with
      | tag name => contradiction
      | _ => decide
    rw [trimRight_append (trimRight_of_not_blank hblank),
      symbols_of_symbol? hne hblank (symbol?_mark hs _), ih]
    rfl
  | @tag name cs ss hname hends more ih =>
    rw [trimRight_append (trimRight_of_not_blank hname.isBlank),
      symbols_of_symbol? hname.1 hname.isBlank (symbol?_tag hname hends.trimRight), ih]
    rfl

/-- The symbols that are read from a text are the ones that it spells. -/
theorem symbols_eq_ok_iff : symbols (trimRight cs) = .ok ss ↔ Spelled cs ss := by
  constructor
  · intro h
    obtain ⟨bs, hcs, hblank⟩ := exists_trimRight_append cs
    rw [hcs]
    exact (spelled_of_symbols h).append_blanks hblank
  · exact symbols_of_spelled

theorem Spelled.unique (h : Spelled cs ss) (h' : Spelled cs ts) : ss = ts := by
  have hss := symbols_of_spelled h
  rw [symbols_of_spelled h'] at hss
  exact (Except.ok.inj hss).symm

theorem Spelled.trimRight (h : Spelled cs ss) : Spelled (trimRight cs) ss := by
  have hsymbols := symbols_of_spelled h
  rw [← trimRight_trimRight] at hsymbols
  exact symbols_eq_ok_iff.1 hsymbols

theorem Spelled.isTag {name : String} (h : Spelled cs ss) (hmem : .tag name ∈ ss) :
    IsTag name.toList := by
  induction h with
  | nil => simp at hmem
  | blank hc more ih => exact ih hmem
  | mark hs more ih =>
    rcases List.mem_cons.1 hmem with rfl | htail
    · contradiction
    · exact ih htail
  | tag hname hends more ih =>
    rcases List.mem_cons.1 hmem with heq | htail
    · rw [Symbol.tag.inj heq, String.toList_ofList]
      exact hname
    · exact ih htail

end ImportSurvey.Constraint
