import ImportSurvey.Json.Value
/-!
# The parts of JSON values

Tests of a value and of all values in it, and induction over values. The two tests in use are that no
part is a number with a fraction or an exponent, and that no object has a key twice.
-/

namespace ImportSurvey.Json

variable {p : Json → Bool} {items : List Json} {members : List (String × Json)}

/-- Induction over values, with all items of an array and all members of an object at once. -/
@[elab_as_elim]
theorem inductionOn {motive : Json → Prop} (v : Json) (null : motive null)
    (bool : ∀ b, motive (bool b)) (int : ∀ n, motive (int n)) (float : ∀ x, motive (float x))
    (str : ∀ s, motive (str s)) (arr : ∀ items, (∀ v ∈ items, motive v) → motive (arr items))
    (obj : ∀ members : List (String × Json), (∀ e ∈ members, motive e.2) → motive (obj members)) :
    motive v :=
  @Json.rec motive (fun items => ∀ v ∈ items, motive v) (fun members => ∀ e ∈ members, motive e.2)
    (fun e => motive e.2) null bool int float str arr obj
    (fun _ h => absurd h List.not_mem_nil)
    (fun _ _ hfirst hrest => List.forall_mem_cons.2 ⟨hfirst, hrest⟩)
    (fun _ h => absurd h List.not_mem_nil)
    (fun _ _ hfirst hrest => List.forall_mem_cons.2 ⟨hfirst, hrest⟩)
    (fun _ _ h => h) v

mutual

def all (p : Json → Bool) : Json → Bool
  | arr items => p (arr items) && allItems p items
  | obj members => p (obj members) && allMembers p members
  | v => p v

def allItems (p : Json → Bool) : List Json → Bool
  | [] => true
  | v :: vs => all p v && allItems p vs

def allMembers (p : Json → Bool) : List (String × Json) → Bool
  | [] => true
  | (_, v) :: ms => all p v && allMembers p ms

end

private theorem allItems_iff : allItems p items = true ↔ ∀ v ∈ items, v.all p = true := by
  induction items with
  | nil => simp [allItems]
  | cons v vs ih => rw [allItems, Bool.and_eq_true, ih, List.forall_mem_cons]

private theorem allMembers_iff : allMembers p members = true ↔ ∀ e ∈ members, e.2.all p = true := by
  induction members with
  | nil => simp [allMembers]
  | cons e ms ih => rw [allMembers, Bool.and_eq_true, ih, List.forall_mem_cons]

theorem all_arr : (arr items).all p = true ↔ p (arr items) = true ∧ ∀ v ∈ items, v.all p = true := by
  rw [all, Bool.and_eq_true, allItems_iff]

theorem all_obj :
    (obj members).all p = true ↔ p (obj members) = true ∧ ∀ e ∈ members, e.2.all p = true := by
  rw [all, Bool.and_eq_true, allMembers_iff]

def isFloat : Json → Bool
  | float _ => true
  | _ => false

/-- Whether no number in a value has a fraction or an exponent. -/
def isFloatFree (v : Json) : Bool :=
  v.all fun part => !part.isFloat

def isTable : Json → Bool
  | obj members => decide (Table.keys members).Nodup
  | _ => true

def hasDistinctKeys (v : Json) : Bool :=
  v.all isTable

theorem isFloatFree_arr : (arr items).isFloatFree = true ↔ ∀ v ∈ items, v.isFloatFree = true :=
  all_arr.trans (and_iff_right rfl)

theorem isFloatFree_obj :
    (obj members).isFloatFree = true ↔ ∀ e ∈ members, e.2.isFloatFree = true :=
  all_obj.trans (and_iff_right rfl)

theorem hasDistinctKeys_arr :
    (arr items).hasDistinctKeys = true ↔ ∀ v ∈ items, v.hasDistinctKeys = true :=
  all_arr.trans (and_iff_right rfl)

theorem hasDistinctKeys_obj :
    (obj members).hasDistinctKeys = true ↔
      (Table.keys members).Nodup ∧ ∀ e ∈ members, e.2.hasDistinctKeys = true := by
  rw [hasDistinctKeys, all_obj, isTable, decide_eq_true_eq]
  rfl

end ImportSurvey.Json
