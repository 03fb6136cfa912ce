import ImportSurvey.Table
/-!
# Bounded caches

A cache holds a limited number of entries. When it is full, storing drops the entry that was stored
first, also where the key is present already.
-/

namespace ImportSurvey.Workspace

/-- An entry was to make room in a cache that holds none. -/
inductive CacheError
  | nothingToEvict
deriving DecidableEq, Repr

structure Cache (κ α : Type) where
  capacity : Nat
  entries : Table κ α := []

namespace Cache

variable {κ α : Type} [DecidableEq κ]

def get? (c : Cache κ α) (k : κ) : Option α :=
  c.entries.get? k

def clear (c : Cache κ α) : Cache κ α :=
  { c with entries := [] }

def put (c : Cache κ α) (k : κ) (v : α) : Except CacheError (Cache κ α) :=
  if c.entries.length < c.capacity then .ok { c with entries := c.entries.put k v }
  else
    match c.entries with
    | [] => .error .nothingToEvict
    | _ :: rest => .ok { c with entries := Table.put rest k v }

end Cache

end ImportSurvey.Workspace
