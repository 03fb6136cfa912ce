import ImportSurvey.Dependency.Registry
import Mathlib.Data.List.Induction
/-!
# Which resolver a registry gives

A run registers resolvers, asks for them and clears the registry. Asking for what is not there puts
the built-in resolvers of all kinds in place, so what counts is what was registered since the last
time that happened: of that the last registration since the last clearing, and the built-in resolver
where there is none.
-/

namespace ImportSurvey.Dependency

theorem Kind.eq_name_of_ofName? {name : String} {k : Kind} (h : ofName? name = some k) :
    name = k.name := by
  have hname := List.find?_some h
  exact (eq_of_beq hname).symm

namespace Registry

variable {ρ : Type} {builtin : Kind → ρ} {r : Registry ρ} {name : String} {k : Kind}

inductive Move (ρ : Type)
  | register (kindName : String) (resolver : ρ)
  | get (kindName : String)
  | clear

/-- The registry after a move; registering for what is no kind changes nothing. -/
def move (builtin : Kind → ρ) (r : Registry ρ) : Move ρ → Registry ρ
  | .register kindName resolver =>
    match r.register kindName resolver with
    | .ok registered => registered
    | .error _ => r
  | .get kindName => (r.get builtin kindName).2
  | .clear => r.clear

def after (builtin : Kind → ρ) (r : Registry ρ) (moves : List (Move ρ)) : Registry ρ :=
  moves.foldl (move builtin) r

def loaded (builtin : Kind → ρ) : Registry ρ :=
  restore builtin {}

/-- The resolver that some moves registered last for a kind, since they last cleared the registry. -/
def lastRegistered? (k : Kind) (moves : List (Move ρ)) : Option ρ :=
  moves.foldl (fun last m =>
    match m with
    | .register kindName resolver => if kindName = k.name then some resolver else last
    | .get _ => last
    | .clear => none) none

def FindsAll (builtin : Kind → ρ) (r : Registry ρ) (moves : List (Move ρ)) : Prop :=
  ∀ before kindName rest, moves = before ++ .get kindName :: rest →
    (r.after builtin before).find? kindName ≠ none

/-- The moves leave the built-in resolvers in place: there are none, or the last of them asked for
what was not there. -/
def EndsRestored (builtin : Kind → ρ) (moves : List (Move ρ)) : Prop :=
  moves = [] ∨ ∃ before kindName, moves = before ++ [.get kindName] ∧
    ((loaded builtin).after builtin before).find? kindName = none

theorem after_concat (builtin : Kind → ρ) (r : Registry ρ) (moves : List (Move ρ)) (m : Move ρ) :
    r.after builtin (moves ++ [m]) = (r.after builtin moves).move builtin m :=
  List.foldl_append

theorem after_append (builtin : Kind → ρ) (r : Registry ρ) (early late : List (Move ρ)) :
    r.after builtin (early ++ late) = (r.after builtin early).after builtin late :=
  List.foldl_append

/-! ## One move -/

theorem find?_eq (r : Registry ρ) (k : Kind) : r.find? k.name = r.resolvers.get? k := by
  rw [find?, Kind.ofName?_name, Option.bind_some]

theorem find?_eq_none_of_no_kind (h : Kind.ofName? name = none) (r : Registry ρ) :
    r.find? name = none := by
  rw [find?, h, Option.bind_none]

theorem find?_restore (builtin : Kind → ρ) (r : Registry ρ) (k : Kind) :
    (r.restore builtin).find? k.name = some (builtin k) := by
  rw [find?_eq]
  simp only [restore, Kind.all, List.foldl_cons, List.foldl_nil, Table.get?_put]
  cases k <;> rfl

private theorem find?_clear (r : Registry ρ) (name : String) : r.clear.find? name = none := by
  rw [find?]
  cases Kind.ofName? name <;> rfl

theorem find?_move_register (builtin : Kind → ρ) (r : Registry ρ) (name : String) (resolver : ρ)
    (k : Kind) :
    (r.move builtin (.register name resolver)).find? k.name =
      if name = k.name then some resolver else r.find? k.name := by
  simp only [move, register]
  cases hkind : Kind.ofName? name with
  | none =>
    have hne : name ≠ k.name := by
      rintro rfl
      rw [Kind.ofName?_name] at hkind
      contradiction
    rw [if_neg hne]
  | some j =>
    obtain rfl := Kind.eq_name_of_ofName? hkind
    rw [find?_eq, find?_eq, Table.get?_put]
    by_cases hjk : k = j
    · rw [if_pos hjk, if_pos (by rw [hjk])]
    · rw [if_neg hjk, if_neg fun hname => hjk ?_]
      have hsame := congrArg Kind.ofName? hname
      rw [Kind.ofName?_name, Kind.ofName?_name] at hsame
      exact (Option.some.inj hsame).symm

theorem get_of_find? {resolver : ρ} (h : r.find? name = some resolver) :
    r.get builtin name = (.ok resolver, r) := by
  rw [get, h]

private theorem get_snd_of_not_found (h : r.find? name = none) :
    (r.get builtin name).2 = r.restore builtin := by
  rw [get, h]
  simp only
  cases (r.restore builtin).find? name <;> rfl

private theorem get_fst_of_not_found (h : r.find? k.name = none) :
    (r.get builtin k.name).1 = .ok (builtin k) := by
  rw [get, h]
  simp only [find?_restore]

/-- Asking fails for what is no kind, and only for that. -/
theorem get_of_no_kind (h : Kind.ofName? name = none) (r : Registry ρ) :
    r.get builtin name = (.error (.notRegistered name), r.restore builtin) := by
  rw [get, find?_eq_none_of_no_kind h]
  simp only [find?_eq_none_of_no_kind h]

private theorem exists_get_eq_ok (builtin : Kind → ρ) (r : Registry ρ) (k : Kind) :
    ∃ resolver, (r.get builtin k.name).1 = .ok resolver := by
  cases hfind : r.find? k.name with
  | none => exact ⟨_, get_fst_of_not_found hfind⟩
  | some resolver => exact ⟨resolver, by rw [get_of_find? hfind]⟩

theorem get_fst_eq_error_iff {e : RegistryError} :
    (r.get builtin name).1 = .error e ↔ Kind.ofName? name = none ∧ e = .notRegistered name := by
  cases hkind : Kind.ofName? name with
  | none =>
    rw [get_of_no_kind hkind, Except.error.injEq]
    exact ⟨fun h => ⟨rfl, h.symm⟩, fun h => h.2.symm⟩
  | some k =>
    obtain rfl := Kind.eq_name_of_ofName? hkind
    obtain ⟨resolver, hget⟩ := exists_get_eq_ok builtin r k
    rw [hget]
    simp

/-! ## Runs -/

/-- What is found after moves that found all that they asked for, the built-in resolvers being in
place before: the last registration or the built-in resolver, or nothing for a kind that was not
registered since the last clearing. -/
def Shows (builtin : Kind → ρ) (r : Registry ρ) (moves : List (Move ρ)) : Prop :=
  ∀ k, r.find? k.name = some ((lastRegistered? k moves).getD (builtin k)) ∨
    r.find? k.name = none ∧ lastRegistered? k moves = none

theorem FindsAll.of_concat {moves : List (Move ρ)} {m : Move ρ}
    (h : FindsAll builtin r (moves ++ [m])) : FindsAll builtin r moves := by
  rintro before kindName rest rfl
  exact h before kindName (rest ++ [m]) (by simp)

theorem FindsAll.concat {moves : List (Move ρ)} {m : Move ρ} (h : FindsAll builtin r moves)
    (hlast : ∀ kindName, m = .get kindName → (r.after builtin moves).find? kindName ≠ none) :
    FindsAll builtin r (moves ++ [m]) := by
  intro before kindName rest heq
  rcases List.eq_nil_or_concat rest with rfl | ⟨rest, last, rfl⟩
  · obtain ⟨rfl, hm⟩ := List.append_inj' heq rfl
    exact hlast kindName (List.singleton_inj.1 hm)
  · rw [List.concat_eq_append, ← List.cons_append, ← List.append_assoc] at heq
    exact h before kindName rest (List.append_inj' heq rfl).1

theorem shows_after (hr : ∀ k, r.find? k.name = some (builtin k)) {moves : List (Move ρ)}
    (h : FindsAll builtin r moves) : Shows builtin (r.after builtin moves) moves := by
  induction moves using List.reverseRecOn with
  | nil => exact fun k => Or.inl (hr k)
  | append_singleton moves m ih =>
    have hbefore := ih h.of_concat
    intro k
    rw [after_concat, lastRegistered?, List.foldl_append, ← lastRegistered?]
    cases m with
    | register kindName resolver =>
      rw [find?_move_register]
      simp only [List.foldl_cons, List.foldl_nil]
      by_cases hname : kindName = k.name
      · rw [if_pos hname, if_pos hname]
        exact Or.inl rfl
      · rw [if_neg hname, if_neg hname]
        exact hbefore k
    | get kindName =>
      obtain ⟨resolver, hfind⟩ := Option.ne_none_iff_exists'.1 (h moves kindName [] rfl)
      have hsame : (r.after builtin moves).move builtin (.get kindName) = r.after builtin moves := by
        rw [move, get_of_find? hfind]
      rw [hsame]
      exact hbefore k
    | clear => exact Or.inr ⟨find?_clear (r.after builtin moves) k.name, rfl⟩

theorem Shows.get_eq {moves : List (Move ρ)} (h : Shows builtin r moves) (k : Kind) :
    (r.get builtin k.name).1 = .ok ((lastRegistered? k moves).getD (builtin k)) := by
  rcases h k with hfind | ⟨hfind, hlast⟩
  · rw [get_of_find? hfind]
  · rw [get_fst_of_not_found hfind, hlast, Option.getD_none]

theorem EndsRestored.find?_after {moves : List (Move ρ)} (h : EndsRestored builtin moves) (k : Kind) :
    ((loaded builtin).after builtin moves).find? k.name = some (builtin k) := by
  rcases h with rfl | ⟨before, kindName, rfl, hmissing⟩
  · exact find?_restore builtin {} k
  · rw [after_concat, move, get_snd_of_not_found hmissing, find?_restore]

/-- Every run has a last moment at which the built-in resolvers were put in place. -/
theorem exists_last_restored (builtin : Kind → ρ) (moves : List (Move ρ)) :
    ∃ early late, moves = early ++ late ∧ EndsRestored builtin early ∧
      FindsAll builtin ((loaded builtin).after builtin early) late := by
  induction moves using List.reverseRecOn with
  | nil =>
    refine ⟨[], [], rfl, Or.inl rfl, fun before kindName rest heq => ?_⟩
    simp at heq
  | append_singleton moves m ih =>
    obtain ⟨early, late, rfl, hearly, hlate⟩ := ih
    by_cases hfound : ∀ kindName, m = .get kindName →
        (((loaded builtin).after builtin early).after builtin late).find? kindName ≠ none
    · exact ⟨early, late ++ [m], List.append_assoc _ _ _, hearly, hlate.concat hfound⟩
    · push Not at hfound
      obtain ⟨kindName, rfl, hmissing⟩ := hfound
      refine ⟨early ++ late ++ [.get kindName], [], (List.append_nil _).symm,
        Or.inr ⟨early ++ late, kindName, rfl, ?_⟩, fun before other rest heq => ?_⟩
      · rwa [after_append]
      · simp at heq

/-- A resolver that is asked for is the one last registered since the last clearing, or the built-in
one, where only what happened since the built-in resolvers were last put in place counts; so in a run
that finds all that it asks for all of it counts. Asking fails for what is no kind only, and puts the
built-in resolvers in place then. -/
theorem get_after_moves (builtin : Kind → ρ) (moves : List (Move ρ)) :
    (∃ early late, moves = early ++ late ∧ EndsRestored builtin early ∧
      FindsAll builtin ((loaded builtin).after builtin early) late) ∧
    (∀ early late, moves = early ++ late → EndsRestored builtin early →
      FindsAll builtin ((loaded builtin).after builtin early) late →
      ∀ k, (((loaded builtin).after builtin moves).get builtin k.name).1 =
        .ok ((lastRegistered? k late).getD (builtin k))) ∧
    (∀ name e, (((loaded builtin).after builtin moves).get builtin name).1 = .error e ↔
      Kind.ofName? name = none ∧ e = .notRegistered name) ∧
    ∀ name, Kind.ofName? name = none → ∀ k,
      (((loaded builtin).after builtin (moves ++ [.get name])).get builtin k.name).1 =
        .ok (builtin k) := by
  refine ⟨exists_last_restored builtin moves, ?_, fun name e => get_fst_eq_error_iff,
    fun name hname k => ?_⟩
  · rintro early late rfl hearly hlate k
    rw [after_append]
    exact (shows_after hearly.find?_after hlate).get_eq k
  · rw [after_concat, move, get_of_no_kind hname, get_of_find? (find?_restore builtin _ k)]

/-- A registration counts as long as what is asked for is there, and no longer: asking for a kind
that was cleared away brings all the built-in resolvers back. -/
theorem get_after_moves_cleared :
    EndsRestored Kind.name ([] : List (Move String)) ∧
    FindsAll Kind.name (loaded Kind.name) [.clear, .register "git" "mine"] ∧
    (((loaded Kind.name).after Kind.name [.clear, .register "git" "mine"]).get Kind.name
      Kind.git.name).1 = .ok "mine" ∧
    EndsRestored Kind.name [.clear, .register "git" "mine", .get "stdlib"] ∧
    FindsAll Kind.name
      ((loaded Kind.name).after Kind.name [.clear, .register "git" "mine", .get "stdlib"]) [] ∧
    (((loaded Kind.name).after Kind.name [.clear, .register "git" "mine", .get "stdlib"]).get
      Kind.name Kind.git.name).1 = .ok "git" := by
  have hnone : FindsAll Kind.name
      ((loaded Kind.name).after Kind.name [.clear, .register "git" "mine", .get "stdlib"]) [] :=
    fun before kindName rest heq => by simp at heq
  have htwo : FindsAll Kind.name (loaded Kind.name) [.clear, .register "git" "mine"] := by
    intro before kindName rest heq
    have hmem : Move.get kindName ∈ [.clear, .register "git" "mine"] := by
      rw [heq]
      exact List.mem_append_right before List.mem_cons_self
    simp at hmem
  have hrestored : EndsRestored Kind.name [.clear, .register "git" "mine", .get "stdlib"] :=
    Or.inr ⟨[.clear, .register "git" "mine"], "stdlib", rfl, by decide⟩
  exact ⟨Or.inl rfl, htwo,
    (get_after_moves Kind.name [.clear, .register "git" "mine"]).2.1 [] _ rfl (Or.inl rfl) htwo .git,
    hrestored, hnone,
    (get_after_moves Kind.name [.clear, .register "git" "mine", .get "stdlib"]).2.1 _ [] rfl
      hrestored hnone .git⟩

/-- Asking for what is no kind fails, and the resolver registered before is no longer given. -/
theorem get_forgets_registration :
    (((loaded Kind.name).after Kind.name [.register "git" "mine"]).get Kind.name "git").1 =
      .ok "mine" ∧
    (((loaded Kind.name).after Kind.name [.register "git" "mine"]).get Kind.name "svn").1 =
      .error (.notRegistered "svn") ∧
    lastRegistered? .git [.register "git" "mine", .get "svn"] = some "mine" ∧
    (((loaded Kind.name).after Kind.name [.register "git" "mine", .get "svn"]).get Kind.name
      "git").1 = .ok "git" := by
  decide

end Registry

end ImportSurvey.Dependency
