/-!
# Reading from the front of a list

What a reader hands back: the value it read and the rest, which is shorter than what it was given.
The proof travels with the rest, so readers that call one another end on every input.
-/

namespace ImportSurvey.Text

structure Reading (α : Type) {β : Type} (input : List β) where
  value : α
  rest : List β
  shorter : rest.length < input.length

namespace Reading

variable {α γ β : Type} {input : List β}

def map (f : α → γ) (r : Reading α input) : Reading γ input :=
  ⟨f r.value, r.rest, r.shorter⟩

/-- The same reading from a longer list. -/
def within {longer : List β} (r : Reading α input) (h : input.length ≤ longer.length) :
    Reading α longer :=
  ⟨r.value, r.rest, Nat.lt_of_lt_of_le r.shorter h⟩

end Reading

end ImportSurvey.Text
