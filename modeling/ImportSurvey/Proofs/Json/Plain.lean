import ImportSurvey.Proofs.Json.Parts
import ImportSurvey.Proofs.Json.Scalars
/-!
# The characters of written values

What is written for a value over several lines has line feeds and printable ASCII characters only.
-/

namespace ImportSurvey.Json

open Text

variable {c : Char} {v : Json} {vs : List Json} {ms : List (String × Json)}

def isPlain (c : Char) : Bool :=
  c == '\n' || (0x20 ≤ c.toNat && c.toNat ≤ 0x7e)

def Plain (cs : List Char) : Prop :=
  cs.all isPlain = true

@[simp] theorem plain_append {cs ds : List Char} : Plain (cs ++ ds) ↔ Plain cs ∧ Plain ds := by
  rw [Plain, List.all_append, Bool.and_eq_true]
  rfl

@[simp] theorem plain_nil : Plain [] := rfl

@[simp] theorem plain_cons {cs : List Char} : Plain (c :: cs) ↔ isPlain c = true ∧ Plain cs := by
  rw [Plain, List.all_cons, Bool.and_eq_true]
  rfl

private theorem plain_flatMap {α : Type} {f : α → List Char} {xs : List α}
    (h : ∀ x ∈ xs, Plain (f x)) :
    Plain (xs.flatMap f) := by
  induction xs with
  | nil => rfl
  | cons x xs ih =>
    rw [List.flatMap_cons, plain_append]
    exact ⟨h x List.mem_cons_self, ih fun y hy => h y (List.mem_cons_of_mem x hy)⟩

/-! ## Strings and numbers -/

private theorem plain_hex (n width : Nat) : Plain (hex n width) := by
  have hdigit : ∀ d < 16, isPlain (hexDigit d) = true := by decide
  induction width generalizing n with
  | zero => rfl
  | succ width ih =>
    rw [hex, plain_append, plain_cons]
    exact ⟨ih (n / 16), hdigit _ (Nat.mod_lt n (by decide)), rfl⟩

theorem plain_escapedChar (c : Char) : Plain (escapedChar c) := by
  by_cases hshort : c ∈ shortEscapes
  · obtain ⟨letter, hletter, hchar, -⟩ := escapedChar_of_mem c hshort
    have hplain : ∀ letter ∈ ['\x22', '\\', 'n', 'r', 't', 'b', 'f'], Plain ['\\', letter] := by
      simp only [List.forall_mem_cons]
      exact ⟨rfl, rfl, rfl, rfl, rfl, rfl, rfl, fun _ h => absurd h List.not_mem_nil⟩
    rw [hchar]
    exact hplain letter hletter
  · rw [escapedChar_of_not_mem hshort]
    by_cases hplain : 0x20 ≤ c.toNat ∧ c.toNat ≤ 0x7e
    · rw [if_pos hplain, plain_cons]
      exact ⟨by simp [isPlain, hplain], rfl⟩
    · rw [if_neg hplain]
      exact plain_flatMap fun u _ => plain_cons.2 ⟨rfl, plain_cons.2 ⟨rfl, plain_hex u 4⟩⟩

theorem plain_stringChars (s : String) : Plain (stringChars s) := by
  rw [stringChars, plain_append, plain_cons]
  exact ⟨⟨rfl, plain_flatMap fun c _ => plain_escapedChar c⟩, rfl⟩

private theorem plain_toDigits (n : Nat) : Plain (Nat.toDigits 10 n) := by
  rw [Plain, List.all_eq_true]
  intro c hc
  have hdigit := Char.isDigit_iff_toNat.1 (isDigit_of_mem_toDigits hc)
  have hplain : 0x20 ≤ c.toNat ∧ c.toNat ≤ 0x7e :=
    ⟨Nat.le_trans (by decide) hdigit.1, Nat.le_trans hdigit.2 (by decide)⟩
  simp [isPlain, hplain]

theorem plain_intChars (n : Int) : Plain (intChars n) := by
  cases n with
  | ofNat n => exact plain_toDigits n
  | negSucc n => exact plain_cons.2 ⟨rfl, plain_toDigits (n + 1)⟩

/-! ## Values -/

theorem plain_lineAt (depth : Nat) : Plain (lineAt depth) := by
  rw [lineAt, plain_cons, Plain, List.all_eq_true]
  refine ⟨rfl, fun c hc => ?_⟩
  rw [List.eq_of_mem_replicate hc]
  rfl

theorem plain_opening (depth : Nat) : Plain (Layout.lines.opening depth) :=
  plain_lineAt depth

theorem plain_between (depth : Nat) : Plain (Layout.lines.between depth) :=
  plain_cons.2 ⟨rfl, plain_lineAt depth⟩

theorem plain_closing (depth : Nat) : Plain (Layout.lines.closing depth) :=
  plain_lineAt depth

theorem plain_itemChars {depth : Nat} (h : ∀ v ∈ vs, Plain (chars .lines depth v)) :
    Plain (itemChars .lines depth vs) := by
  induction vs with
  | nil => rfl
  | cons v vs ih =>
    have hrest := ih fun w hw => h w (List.mem_cons_of_mem v hw)
    have hfirst := h v List.mem_cons_self
    simp only [itemChars, plain_append, plain_between, hfirst, hrest, and_self]

theorem plain_memberChars {depth : Nat} (h : ∀ m ∈ ms, Plain (chars .lines depth m.2)) :
    Plain (memberChars .lines depth ms) := by
  induction ms with
  | nil => rfl
  | cons m ms ih =>
    have hrest := ih fun w hw => h w (List.mem_cons_of_mem m hw)
    have hfirst := h m List.mem_cons_self
    simp [memberChars, plain_between, plain_stringChars, hfirst, hrest, isPlain]

theorem plain_chars (hfloat : v.isFloatFree = true) (depth : Nat) : Plain (chars .lines depth v) := by
  induction v using inductionOn generalizing depth with
  | null => rfl
  | bool b => cases b <;> rfl
  | int n => exact plain_intChars n
  | float x => contradiction
  | str s => exact plain_stringChars s
  | arr items ih =>
    have hparts := isFloatFree_arr.1 hfloat
    cases items with
    | nil => rfl
    | cons v vs =>
      have hfirst := ih v List.mem_cons_self (hparts v List.mem_cons_self) (depth + 1)
      have hrest : Plain (itemChars .lines (depth + 1) vs) := plain_itemChars fun w hw =>
        ih w (List.mem_cons_of_mem v hw) (hparts w (List.mem_cons_of_mem v hw)) (depth + 1)
      simp [chars, plain_opening, plain_closing, hfirst, hrest, isPlain]
  | obj members ih =>
    have hparts := isFloatFree_obj.1 hfloat
    cases members with
    | nil => rfl
    | cons m ms =>
      have hfirst := ih m List.mem_cons_self (hparts m List.mem_cons_self) (depth + 1)
      have hrest : Plain (memberChars .lines (depth + 1) ms) := plain_memberChars fun w hw =>
        ih w (List.mem_cons_of_mem m hw) (hparts w (List.mem_cons_of_mem m hw)) (depth + 1)
      simp [chars, plain_opening, plain_closing, plain_stringChars, hfirst, hrest, isPlain]

end ImportSurvey.Json
