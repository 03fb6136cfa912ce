import ImportSurvey.Json.Parser
/-!
# Steps of the JSON readers

What the readers of values, items and members answer, without the proof that they went on: each in
terms of the readers that it calls, with the blanks in front skipped.
-/

namespace ImportSurvey.Json

open Text

variable {cs rest after : List Char} {c : Char} {v : Json}

def outcome {α : Type} {cs : List Char} (r : Option (Reading α cs)) : Option (α × List Char) :=
  r.map fun read => (read.value, read.rest)

theorem outcome_map {α β : Type} {longer : List Char} (f : α → β) (r : Option (Reading α cs))
    (h : cs.length ≤ longer.length) :
    outcome (r.map fun read => (read.map f).within h) =
      (outcome r).map fun p => (f p.1, p.2) := by
  cases r <;> rfl

theorem outcome_string (cs : List Char) :
    outcome (string? cs) =
      (stringTail? cs).map fun tail => (String.ofList (joinUnits tail.1), tail.2) := by
  rw [string?]
  split
  · rename_i h
    simp only [h]
    rfl
  · rename_i h
    simp only [h]
    rfl

theorem outcome_value (cs : List Char) :
    outcome (value? cs) =
      match skipSpace cs with
      | [] => none
      | c :: rest =>
        if c == '\x22' then (outcome (string? rest)).map fun p => (str p.1, p.2)
        else if c == '[' then
          match skipSpace rest with
          | ']' :: after => some (arr [], after)
          | _ => (outcome (items? rest)).map fun p => (arr p.1, p.2)
        else if c == '\x7b' then
          match skipSpace rest with
          | '\x7d' :: after => some (obj [], after)
          | _ => (outcome (members? rest)).map fun p => (obj (Table.ofList p.1), p.2)
        else scalar? (c :: rest) := by
  rw [value?]
  split
  · rename_i h
    simp only [h]
    rfl
  · rename_i c rest h
    simp only [h]
    by_cases hquote : (c == '\x22') = true
    · simp only [if_pos hquote]
      exact outcome_map _ _ _
    by_cases hopen : (c == '[') = true
    · simp only [if_neg hquote, if_pos hopen]
      split
      · rename_i hclose
        simp only [hclose]
        rfl
      · rename_i hother
        split
        · rename_i hclose
          exact absurd hclose (hother _)
        · exact outcome_map _ _ _
    by_cases hbrace : (c == '\x7b') = true
    · simp only [if_neg hquote, if_neg hopen, if_pos hbrace]
      split
      · rename_i hclose
        simp only [hclose]
        rfl
      · rename_i hother
        split
        · rename_i hclose
          exact absurd hclose (hother _)
        · exact outcome_map _ _ _
    · simp only [if_neg hquote, if_neg hopen, if_neg hbrace]
      split
      · rename_i hscalar
        exact hscalar.symm
      · rename_i hscalar
        exact hscalar.symm

theorem outcome_items (cs : List Char) :
    outcome (items? cs) =
      (outcome (value? cs)).bind fun first =>
        match skipSpace first.2 with
        | ',' :: rest => (outcome (items? rest)).map fun p => (first.1 :: p.1, p.2)
        | ']' :: rest => some ([first.1], rest)
        | _ => none := by
  rw [items?]
  cases value? cs with
  | none => rfl
  | some first =>
    obtain ⟨v, after, hafter⟩ := first
    simp only [Option.bind_some, outcome, Option.map_some]
    split
    · rename_i h
      simp only [h]
      exact outcome_map _ _ _
    · rename_i h
      simp only [h]
      rfl
    · rename_i hcomma hclose
      split
      · rename_i h
        exact absurd h (hcomma _)
      · rename_i h
        exact absurd h (hclose _)
      · rfl

/-- What is read from the first member on, when it was read and this text follows. -/
def membersFrom (first : String × Json) (after : List Char) :
    Option (List (String × Json) × List Char) :=
  match skipSpace after with
  | ',' :: rest => (outcome (members? rest)).map fun p => (first :: p.1, p.2)
  | '\x7d' :: rest => some ([first], rest)
  | _ => none

theorem outcome_members (cs : List Char) :
    outcome (members? cs) =
      match skipSpace cs with
      | '\x22' :: rest =>
        (outcome (string? rest)).bind fun key =>
          match skipSpace key.2 with
          | ':' :: rest =>
            (outcome (value? rest)).bind fun first => membersFrom (key.1, first.1) first.2
          | _ => none
      | _ => none := by
  rw [members?]
  split
  · rename_i rest h
    simp only [h]
    cases string? rest with
    | none => rfl
    | some key =>
      obtain ⟨key, after, hafter⟩ := key
      simp only [Option.bind_some, outcome, Option.map_some]
      split
      · rename_i rest h
        simp only [h]
        cases value? rest with
        | none => rfl
        | some first =>
          obtain ⟨v, after, hafter⟩ := first
          simp only [Option.bind_some, Option.map_some, membersFrom]
          split
          · rename_i h
            simp only [h]
            exact outcome_map _ _ _
          · rename_i h
            simp only [h]
            rfl
          · rename_i hcomma hclose
            split
            · rename_i h
              exact absurd h (hcomma _)
            · rename_i h
              exact absurd h (hclose _)
            · rfl
      · rename_i hcolon
        split
        · rename_i h
          exact absurd h (hcolon _)
        · rfl
  · rename_i hquote
    split
    · rename_i h
      exact absurd h (hquote _)
    · rfl

end ImportSurvey.Json
