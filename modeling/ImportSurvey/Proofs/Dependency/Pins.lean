import ImportSurvey.Dependency.Pin
import ImportSurvey.Proofs.Text.Elements
import Mathlib.Data.List.Nodup
import Mathlib.Data.List.Perm.Basic
/-!
# The pin for a path

Of the pins whose names cover a path the one with the longest name counts. Names are different in a
table of pins, so there is only one such pin, a pin is found under its own name, and every pin that is
read bears the name it stands under. The order in which pins are written does not matter.
-/

namespace ImportSurvey.Dependency

open Text

variable {pins : List Pin} {best : Option Pin} {p q : Pin} {path : String}

/-! ## The longest name -/

def longerPin (path : String) (best : Option Pin) (p : Pin) : Option Pin :=
  if covers p.name path && best.all (fun b => b.name.length < p.name.length) then some p else best

theorem pinFor?_eq (pins : List Pin) (path : String) :
    pinFor? pins path = pins.foldl (longerPin path) none := rfl

/-- A step keeps the best pin so far unless the new one covers the path and is longer. -/
theorem longerPin_eq_some (h : longerPin path best p = some q) :
    (best = some q ∨ q = p ∧ covers p.name path = true) ∧
      (∀ b, best = some b → b.name.length ≤ q.name.length) ∧
      (covers p.name path = true → p.name.length ≤ q.name.length) := by
  unfold longerPin at h
  split at h
  · rename_i hbetter
    obtain ⟨hcovers, hlonger⟩ := Bool.and_eq_true_iff.1 hbetter
    obtain rfl := Option.some.inj h
    refine ⟨Or.inr ⟨rfl, hcovers⟩, ?_, fun _ => Nat.le_refl _⟩
    rintro b rfl
    simp only [Option.all_some, decide_eq_true_eq] at hlonger
    omega
  · rename_i hworse
    subst h
    refine ⟨Or.inl rfl, ?_, fun hcovers => ?_⟩
    · rintro b hb
      obtain rfl := Option.some.inj hb
      exact Nat.le_refl _
    · simp only [hcovers, Option.all_some, Bool.true_and, decide_eq_true_eq] at hworse
      omega

private theorem longerPin_eq_none_iff :
    longerPin path best p = none ↔ best = none ∧ covers p.name path = false := by
  unfold longerPin
  cases best with
  | none => simp
  | some b =>
    split
    · simp
    · simp

private theorem foldl_longerPin_eq_some (h : pins.foldl (longerPin path) best = some q) :
    (best = some q ∨ q ∈ pins ∧ covers q.name path = true) ∧
      (∀ b, best = some b → b.name.length ≤ q.name.length) ∧
      ∀ p ∈ pins, covers p.name path = true → p.name.length ≤ q.name.length := by
  induction pins generalizing best with
  | nil =>
    refine ⟨Or.inl h, fun b hb => ?_, fun p hp => absurd hp List.not_mem_nil⟩
    obtain rfl := Option.some.inj (hb.symm.trans h)
    exact Nat.le_refl _
  | cons p pins ih =>
    obtain ⟨hfrom, hnext, hrest⟩ := ih h
    cases hstep : longerPin path best p with
    | none =>
      obtain ⟨rfl, hcovers⟩ := longerPin_eq_none_iff.1 hstep
      rw [hstep] at hfrom
      refine ⟨Or.inr ?_, fun b hb => by contradiction, fun r hr hr' => ?_⟩
      · obtain ⟨hmem, hq⟩ := hfrom.resolve_left (Option.some_ne_none q).symm
        exact ⟨List.mem_cons_of_mem p hmem, hq⟩
      · rcases List.mem_cons.1 hr with rfl | hr
        · exact absurd (hr'.symm.trans hcovers) (by decide)
        · exact hrest r hr hr'
    | some c =>
      obtain ⟨hc, hbest, hp⟩ := longerPin_eq_some hstep
      have hle := hnext c hstep
      refine ⟨?_, fun b hb => Nat.le_trans (hbest b hb) hle, fun r hr hr' => ?_⟩
      · rcases hfrom with hq | ⟨hmem, hq⟩
        · obtain rfl := Option.some.inj (hstep.symm.trans hq)
          rcases hc with hc | ⟨rfl, hcovers⟩
          · exact Or.inl hc
          · exact Or.inr ⟨List.mem_cons_self, hcovers⟩
        · exact Or.inr ⟨List.mem_cons_of_mem p hmem, hq⟩
      · rcases List.mem_cons.1 hr with rfl | hr
        · exact Nat.le_trans (hp hr') hle
        · exact hrest r hr hr'

/-- The pin for a path covers it, and no other that does has a longer name. -/
theorem pinFor?_eq_some (h : pinFor? pins path = some q) :
    q ∈ pins ∧ covers q.name path = true ∧
      ∀ p ∈ pins, covers p.name path = true → p.name.length ≤ q.name.length := by
  obtain ⟨hfrom, -, hlongest⟩ := foldl_longerPin_eq_some h
  rcases hfrom with hnone | ⟨hmem, hcovers⟩
  · exact absurd hnone (Option.some_ne_none q).symm
  · exact ⟨hmem, hcovers, hlongest⟩

private theorem foldl_longerPin_eq_none_iff :
    pins.foldl (longerPin path) best = none ↔
      best = none ∧ ∀ p ∈ pins, covers p.name path = false := by
  induction pins generalizing best with
  | nil => simp
  | cons p pins ih => rw [List.foldl_cons, ih, longerPin_eq_none_iff, List.forall_mem_cons, and_assoc]

theorem pinFor?_eq_none_iff :
    pinFor? pins path = none ↔ ∀ p ∈ pins, covers p.name path = false := by
  rw [pinFor?_eq, foldl_longerPin_eq_none_iff]
  simp

theorem exists_pinFor? (hp : p ∈ pins) (hcovers : covers p.name path = true) :
    ∃ q, pinFor? pins path = some q := by
  rw [← Option.ne_none_iff_exists', Ne, pinFor?_eq_none_iff]
  intro h
  exact absurd (hcovers.symm.trans (h p hp)) (by decide)

/-! ## Different names -/

theorem eq_of_covers_of_length {a b : String} (ha : covers a path = true)
    (hb : covers b path = true) (hlength : a.length = b.length) : a = b := by
  have hle : a.toList.length ≤ b.toList.length := by
    rw [String.length_toList, String.length_toList]
    omega
  have hpre := List.prefix_of_prefix_length_le (prefix_of_covers ha) (prefix_of_covers hb) hle
  apply String.toList_injective
  apply hpre.eq_of_length
  rw [String.length_toList, String.length_toList, hlength]

theorem eq_of_name_eq (hnames : (pins.map Pin.name).Nodup) (hp : p ∈ pins) (hq : q ∈ pins)
    (h : p.name = q.name) : p = q :=
  List.inj_on_of_nodup_map hnames hp hq h

theorem pinFor?_name (hnames : (pins.map Pin.name).Nodup) (hp : p ∈ pins) :
    pinFor? pins p.name = some p := by
  obtain ⟨q, hq⟩ := exists_pinFor? hp (covers_self p.name)
  obtain ⟨hmem, hcovers, hlongest⟩ := pinFor?_eq_some hq
  have hle := hlongest p hp (covers_self p.name)
  have hge := (prefix_of_covers hcovers).length_le
  rw [String.length_toList, String.length_toList] at hge
  have hname : q.name = p.name :=
    eq_of_covers_of_length hcovers (covers_self p.name) (by omega)
  rw [hq, eq_of_name_eq hnames hmem hp hname]

/-- The name of a pin is a path or, up to a slash, the beginning of it. -/
def Pin.Covers (p : Pin) (path : String) : Prop :=
  path = p.name ∨ ∃ rest, path = p.name ++ "/" ++ rest

/-- A pin covers a path, and its name is longer than that of every other pin that does. -/
structure Governs (pins : List Pin) (path : String) (q : Pin) : Prop where
  mem : q ∈ pins
  covers : q.Covers path
  longest : ∀ p ∈ pins, p.Covers path → p ≠ q → p.name.length < q.name.length

theorem Pin.covers_iff : covers p.name path = true ↔ p.Covers path :=
  covers_iff_eq_or

theorem pinFor?_eq_some_iff (hnames : (pins.map Pin.name).Nodup) :
    pinFor? pins path = some q ↔ Governs pins path q := by
  constructor
  · intro h
    obtain ⟨hmem, hcovers, hlongest⟩ := pinFor?_eq_some h
    refine ⟨hmem, Pin.covers_iff.1 hcovers, fun p hp hp' hne => ?_⟩
    have hpath := Pin.covers_iff.2 hp'
    have hle := hlongest p hp hpath
    have hlength : p.name.length ≠ q.name.length := fun heq =>
      hne (eq_of_name_eq hnames hp hmem (eq_of_covers_of_length hpath hcovers heq))
    omega
  · intro h
    obtain ⟨r, hr⟩ := exists_pinFor? h.mem (Pin.covers_iff.2 h.covers)
    obtain ⟨hmem, hcovers, hlongest⟩ := pinFor?_eq_some hr
    by_cases heq : r = q
    · rw [hr, heq]
    · have hlt := h.longest r hmem (Pin.covers_iff.1 hcovers) heq
      have hle := hlongest q h.mem (Pin.covers_iff.2 h.covers)
      omega

theorem pinFor?_eq_none_iff_not_covers :
    pinFor? pins path = none ↔ ∀ p ∈ pins, ¬ p.Covers path := by
  simp only [pinFor?_eq_none_iff, Bool.eq_false_iff, Ne, Pin.covers_iff]

theorem Governs.perm {others : List Pin} (h : Governs pins path q) (hperm : others.Perm pins) :
    Governs others path q where
  mem := hperm.mem_iff.2 h.mem
  covers := h.covers
  longest p hp := h.longest p (hperm.mem_iff.1 hp)

theorem pinFor?_perm {others : List Pin} (hnames : (pins.map Pin.name).Nodup)
    (hperm : others.Perm pins) (path : String) : pinFor? others path = pinFor? pins path := by
  have hothers : (others.map Pin.name).Nodup := (hperm.map Pin.name).nodup_iff.2 hnames
  apply Option.ext
  intro q
  rw [pinFor?_eq_some_iff hothers, pinFor?_eq_some_iff hnames]
  exact ⟨fun h => h.perm hperm.symm, fun h => h.perm hperm⟩

/-! ## Pins that are read -/

theorem exists_of_bind_eq_ok {ε α β : Type} {x : Except ε α} {f : α → Except ε β} {b : β}
    (h : x >>= f = .ok b) : ∃ a, x = .ok a ∧ f a = .ok b := by
  cases x with
  | error e => contradiction
  | ok a => exact ⟨a, rfl, h⟩

theorem Pin.name_of_ofTable {name : String} {members : List (String × Json)}
    (h : Pin.ofTable name members = .ok p) : p.name = name := by
  simp only [Pin.ofTable] at h
  split at h
  · cases h
  · obtain ⟨url, -, h⟩ := exists_of_bind_eq_ok h
    obtain ⟨commit, -, h⟩ := exists_of_bind_eq_ok h
    obtain ⟨tag, -, h⟩ := exists_of_bind_eq_ok h
    obtain ⟨branch, -, h⟩ := exists_of_bind_eq_ok h
    rw [← Except.ok.inj h]

theorem Pin.name_of_ofJson {name : String} {written : Json}
    (h : Pin.ofJson name written = .ok p) : p.name = name := by
  unfold Pin.ofJson at h
  split at h
  · cases h
  · split at h
    · rw [← Except.ok.inj h]
    · rw [← Except.ok.inj h, Pin.ofCommit]
    · exact Pin.name_of_ofTable h
    · cases h

theorem names_of_loadPins {members : List (String × Json)} (h : loadPins members = .ok pins) :
    pins.map Pin.name = members.map Prod.fst := by
  induction members generalizing pins with
  | nil =>
    obtain rfl := Except.ok.inj h
    rfl
  | cons m members ih =>
    rw [loadPins, List.mapM_cons] at h
    obtain ⟨p, hp, h⟩ := exists_of_bind_eq_ok h
    obtain ⟨rest, hrest, h⟩ := exists_of_bind_eq_ok h
    rw [← Except.ok.inj h, List.map_cons, List.map_cons, Pin.name_of_ofJson hp, ih hrest]

/-- A table of pins is read entry by entry. -/
theorem loadPins_eq_ok_iff {members : List (String × Json)} :
    loadPins members = .ok pins ↔
      List.Forall₂ (fun m p => Pin.ofJson m.1 m.2 = .ok p) members pins := by
  induction members generalizing pins with
  | nil =>
    rw [List.forall₂_nil_left_iff]
    constructor
    · intro h
      exact (Except.ok.inj h).symm
    · rintro rfl
      rfl
  | cons m members ih =>
    rw [loadPins, List.mapM_cons, ← loadPins, List.forall₂_cons_left_iff]
    constructor
    · intro h
      obtain ⟨p, hp, h⟩ := exists_of_bind_eq_ok h
      obtain ⟨rest, hrest, h⟩ := exists_of_bind_eq_ok h
      exact ⟨p, rest, hp, ih.1 hrest, (Except.ok.inj h).symm⟩
    · rintro ⟨p, rest, hp, hrest, rfl⟩
      change (Pin.ofJson m.1 m.2 >>= fun first => loadPins members >>= fun rest =>
        pure (first :: rest)) = _
      rw [hp, ih.2 hrest]
      rfl

theorem exists_loadPins_perm {written others : List (String × Json)}
    (hperm : others.Perm written) (h : loadPins written = .ok pins) :
    ∃ reordered, loadPins others = .ok reordered ∧ reordered.Perm pins := by
  obtain ⟨reordered, hread, hreordered⟩ :=
    List.perm_comp_forall₂ hperm (loadPins_eq_ok_iff.1 h)
  exact ⟨reordered, loadPins_eq_ok_iff.2 hread, hreordered⟩

end ImportSurvey.Dependency
