import ImportSurvey.Proofs.Workspace.Remembered
import Mathlib.Data.List.Induction
/-!
# Searches over whole runs

A run is a list of moves: searches, new exclusions, changes of the tree, scopes entered and left. A
search finds what was there at some moment since the present scope was entered and its exclusions
were last set, since every remembered search was made at such a moment: a move adds to what the
present scope remembers or empties it, and touches no other scope that is open.
-/

namespace ImportSurvey.Workspace

namespace Cache

variable {κ α : Type} [DecidableEq κ] {c c' : Cache κ α} {k : κ} {v : α}

/-- Storing succeeds with the entry put among all or among all but the oldest entries, which leaves no
more than there is room for. -/
theorem exists_of_put (h : c.put k v = .ok c') :
    ∃ kept, kept <:+ c.entries ∧ c' = { c with entries := Table.put kept k v } ∧
      (c.entries.length ≤ c.capacity → kept.length < c.capacity) := by
  rw [put] at h
  by_cases hroom : c.entries.length < c.capacity
  · rw [if_pos hroom] at h
    exact ⟨c.entries, List.suffix_refl _, (Except.ok.inj h).symm, fun _ => hroom⟩
  · rw [if_neg hroom] at h
    cases hentries : c.entries with
    | nil =>
      rw [hentries] at h
      cases h
    | cons oldest rest =>
      rw [hentries] at h
      exact ⟨rest, List.suffix_cons _ _, (Except.ok.inj h).symm, id⟩

theorem mem_put (h : c.put k v = .ok c') {e : κ × α} (he : e ∈ c'.entries) :
    e = (k, v) ∨ e ∈ c.entries := by
  obtain ⟨kept, hkept, rfl, -⟩ := exists_of_put h
  exact (Table.mem_put he).imp_right fun hmem => hkept.mem hmem

private theorem length_put (h : c.put k v = .ok c') :
    c'.capacity = c.capacity ∧
      (c.entries.length ≤ c.capacity → c'.entries.length ≤ c.capacity) := by
  obtain ⟨kept, -, rfl, hkept⟩ := exists_of_put h
  refine ⟨rfl, fun hlength => ?_⟩
  have hroom := hkept hlength
  have hput := Table.length_put_le kept k v
  simp only
  omega

end Cache

/-! ## Runs -/

inductive Move
  | find (path : String) (tests : Bool)
  | setExclusions (exclusions : List String)
  | change (tree : Directory)
  | enter (root : Option Path) (capacity : Nat)
  | leave

/-- A scope that is entered has room for one search at least. -/
def Move.IsRoomy : Move → Prop
  | enter _ capacity => 0 < capacity
  | _ => True

def Move.setsExclusions : Move → Bool
  | setExclusions _ => true
  | _ => false

namespace Session

/-- The session after a move. One that fails changes nothing, as there is no leaving the outermost
scope. -/
def move (s : Session) : Move → Session
  | .find path tests =>
    match s.search path tests with
    | .ok (_, next) => next
    | .error _ => s
  | .setExclusions exclusions => s.setExclusions exclusions
  | .change tree => { s with tree := tree }
  | .enter root capacity => s.enter root capacity
  | .leave => s.leave?.getD s

def after (s : Session) (moves : List Move) : Session :=
  moves.foldl move s

def scopes (s : Session) : List Scope :=
  s.scope :: s.outer

/-- While the moves are made, the scope at a depth stays open. -/
def StaysOpen (depth : Nat) (s : Session) : List Move → Prop
  | [] => depth ≤ s.depth
  | m :: moves => depth ≤ s.depth ∧ StaysOpen depth (s.move m) moves

def KeepsExclusions (depth : Nat) (s : Session) : List Move → Prop
  | [] => True
  | m :: moves =>
    (m.setsExclusions = true → s.depth ≠ depth) ∧ KeepsExclusions depth (s.move m) moves

/-- The run reaches some moment by its `early` moves, and the scope at a depth is since then open
with the exclusions that it has at the end. -/
structure Since (s : Session) (depth : Nat) (moves early late : List Move) : Prop where
  split : moves = early ++ late
  staysOpen : (s.after early).StaysOpen depth late
  keepsExclusions : (s.after early).KeepsExclusions depth late

variable {s first : Session} {m : Move} {moves early late : List Move} {below : List Scope}
  {scope : Scope} {depth : Nat}

theorem after_append (s : Session) (early late : List Move) :
    s.after (early ++ late) = (s.after early).after late :=
  List.foldl_append

theorem after_concat (s : Session) (moves : List Move) (m : Move) :
    s.after (moves ++ [m]) = (s.after moves).move m :=
  after_append s moves [m]

private theorem length_scopes (s : Session) : s.scopes.length = s.depth := rfl

private theorem staysOpen_concat :
    StaysOpen depth s (moves ++ [m]) ↔
      StaysOpen depth s moves ∧ depth ≤ (s.after (moves ++ [m])).depth := by
  induction moves generalizing s with
  | nil => rfl
  | cons first moves ih =>
    rw [List.cons_append, StaysOpen, ih, StaysOpen, and_assoc]
    rfl

private theorem keepsExclusions_concat :
    KeepsExclusions depth s (moves ++ [m]) ↔
      KeepsExclusions depth s moves ∧ (m.setsExclusions = true → (s.after moves).depth ≠ depth) := by
  induction moves generalizing s with
  | nil => exact and_comm
  | cons first moves ih =>
    rw [List.cons_append, KeepsExclusions, ih, KeepsExclusions, and_assoc]
    rfl

theorem Since.now (h : depth ≤ (s.after moves).depth) : Since s depth moves moves [] :=
  ⟨(List.append_nil moves).symm, h, trivial⟩

theorem Since.concat (h : Since s depth moves early late)
    (hdepth : depth ≤ (s.after (moves ++ [m])).depth)
    (hsets : m.setsExclusions = true → (s.after moves).depth ≠ depth) :
    Since s depth (moves ++ [m]) early (late ++ [m]) := by
  obtain ⟨rfl, hopen, hkeeps⟩ := h
  rw [List.append_assoc, after_append] at hdepth
  rw [after_append] at hsets
  exact ⟨List.append_assoc early late [m], staysOpen_concat.2 ⟨hopen, hdepth⟩,
    keepsExclusions_concat.2 ⟨hkeeps, hsets⟩⟩

/-! ## What a move changes -/

theorem exists_search_move (s : Session) (path : String) (tests : Bool) :
    ∃ searches, s.move (.find path tests) =
        { s with scope := { s.scope with searches := searches } } ∧
      (searches = s.scope.searches ∨
        s.scope.searches.put ⟨path, tests, s.scope.exclusions⟩ (s.searchNow path tests) =
          .ok searches) := by
  simp only [move, search]
  cases s.scope.searches.get? ⟨path, tests, s.scope.exclusions⟩ with
  | some files => exact ⟨s.scope.searches, rfl, Or.inl rfl⟩
  | none =>
    cases hput : s.scope.searches.put ⟨path, tests, s.scope.exclusions⟩ (s.searchNow path tests) with
    | error e => exact ⟨s.scope.searches, rfl, Or.inl rfl⟩
    | ok searches => exact ⟨searches, rfl, Or.inr rfl⟩

theorem home_move (s : Session) (m : Move) : (s.move m).home = s.home := by
  cases m with
  | find path tests =>
    obtain ⟨searches, hmove, -⟩ := exists_search_move s path tests
    rw [hmove]
  | setExclusions exclusions => rfl
  | change tree => rfl
  | enter root capacity => rfl
  | leave =>
    simp only [move, leave?]
    cases s.outer <;> rfl

theorem home_after (s : Session) (moves : List Move) : (s.after moves).home = s.home := by
  induction moves generalizing s with
  | nil => rfl
  | cons m moves ih => exact (ih (s.move m)).trans (home_move s m)

/-- No move touches the scopes outside the present one. -/
theorem outer_suffix_move (s : Session) (m : Move) : s.outer <:+ (s.move m).scopes := by
  cases m with
  | find path tests =>
    obtain ⟨searches, hmove, -⟩ := exists_search_move s path tests
    rw [hmove]
    exact List.suffix_cons _ _
  | setExclusions exclusions => exact List.suffix_cons _ _
  | change tree => exact List.suffix_cons _ _
  | enter root capacity =>
    exact (List.suffix_cons s.scope s.outer).trans (List.suffix_cons _ _)
  | leave =>
    simp only [move, leave?]
    cases houter : s.outer with
    | nil => exact List.nil_suffix
    | cons scope outer => exact List.suffix_refl _

theorem suffix_outer (h : below <:+ s.scopes) (hlength : below.length < s.depth) :
    below <:+ s.outer := by
  rcases List.suffix_cons_iff.1 h with rfl | h
  · exact absurd hlength (Nat.lt_irrefl _)
  · exact h

theorem suffix_scopes_after (h : below <:+ s.scopes)
    (hopen : StaysOpen (below.length + 1) s moves) : below <:+ (s.after moves).scopes := by
  induction moves generalizing s with
  | nil => exact h
  | cons m moves ih =>
    obtain ⟨hdepth, hopen⟩ := hopen
    exact ih ((suffix_outer h hdepth).trans (outer_suffix_move s m)) hopen

theorem scopes_leave {root : Option Path} {capacity : Nat} {inner : List Move}
    (hopen : StaysOpen (s.depth + 1) (s.enter root capacity) inner)
    (hdepth : ((s.enter root capacity).after inner).depth = s.depth + 1) :
    (((s.enter root capacity).after inner).move .leave).scopes = s.scopes := by
  have hsuffix : s.scopes <:+ ((s.enter root capacity).after inner).scopes :=
    suffix_scopes_after (List.suffix_cons _ _) hopen
  have houter : ((s.enter root capacity).after inner).outer = s.scopes := by
    have hbelow := suffix_outer hsuffix (by rw [hdepth, length_scopes]; omega)
    refine (hbelow.eq_of_length ?_).symm
    exact (Nat.succ.inj hdepth).symm
  simp only [move, leave?, houter]
  rfl

/-! ## What scopes remember -/

def searchIn (s : Session) (scope : Scope) (tree : Directory) (path : String) (tests : Bool) :
    List String :=
  { s with scope := scope, tree := tree }.searchNow path tests

/-- A search depends on the tree, the root and the exclusions. -/
theorem searchIn_eq {t : Session} (hhome : t.home = s.home) (hroot : scope.root = t.scope.root)
    (hexclusions : scope.exclusions = t.scope.exclusions) (path : String) (tests : Bool) :
    s.searchIn scope t.tree path tests = t.searchNow path tests := by
  simp only [searchIn, searchNow, inProject, root, hhome, hroot, hexclusions]

/-- The search under a key, made in a scope at a depth, found these files at a moment since the scope
was entered and its exclusions were set. -/
def WasFound (first : Session) (moves : List Move) (depth : Nat) (scope : Scope) (key : SearchKey)
    (files : List String) : Prop :=
  key.exclusions = scope.exclusions ∧ ∃ early late, Since first depth moves early late ∧
    files = first.searchIn scope (first.after early).tree key.path key.tests

def RemembersFound (first : Session) (moves : List Move) : Prop :=
  ∀ scope below, scope :: below <:+ (first.after moves).scopes →
    ∀ e ∈ scope.searches.entries, WasFound first moves (below.length + 1) scope e.1 e.2

theorem WasFound.concat {key : SearchKey} {files : List String}
    (h : WasFound first moves depth scope key files)
    (hdepth : depth ≤ (first.after (moves ++ [m])).depth)
    (hsets : m.setsExclusions = true → (first.after moves).depth ≠ depth) :
    WasFound first (moves ++ [m]) depth scope key files := by
  obtain ⟨hexclusions, early, late, hsince, hfiles⟩ := h
  exact ⟨hexclusions, early, late ++ [m], hsince.concat hdepth hsets, hfiles⟩

/-- A scope that was open before a move remembers what it did, and at its depth nothing was set if it
was not the present one. -/
theorem RemembersFound.concat_of_suffix (h : RemembersFound first moves)
    (hbefore : scope :: below <:+ (first.after moves).scopes)
    (hnow : scope :: below <:+ (first.after (moves ++ [m])).scopes)
    (hsets : m.setsExclusions = true → scope :: below <:+ (first.after moves).outer) :
    ∀ e ∈ scope.searches.entries,
      WasFound first (moves ++ [m]) (below.length + 1) scope e.1 e.2 := by
  intro e he
  refine (h scope below hbefore e he).concat hnow.length_le fun hset => ?_
  have hlength : below.length + 1 ≤ (first.after moves).outer.length := (hsets hset).length_le
  have hdepth : (first.after moves).depth = (first.after moves).outer.length + 1 := rfl
  omega

theorem RemembersFound.concat (h : RemembersFound first moves) (m : Move) :
    RemembersFound first (moves ++ [m]) := by
  intro scope below hnow
  -- a scope outside the present one is what it was before the move
  by_cases houter : scope :: below <:+ (first.after moves).outer
  · exact h.concat_of_suffix (houter.trans (List.suffix_cons _ _)) hnow fun _ => houter
  have hscopes := hnow
  rw [after_concat] at hscopes
  cases m with
  | find path tests =>
    obtain ⟨searches, hmove, hsearches⟩ := exists_search_move (first.after moves) path tests
    rw [hmove] at hscopes
    obtain ⟨rfl, rfl⟩ := List.cons.inj ((List.suffix_cons_iff.1 hscopes).resolve_right houter)
    have hsame : ∀ e ∈ (first.after moves).scope.searches.entries,
        WasFound first (moves ++ [.find path tests]) (first.after moves).depth
          (first.after moves).scope e.1 e.2 := fun e he =>
      (h _ _ (List.suffix_refl _) e he).concat hnow.length_le fun hset => nomatch hset
    rcases hsearches with rfl | hput
    · exact hsame
    · intro e he
      rcases Cache.mem_put hput he with rfl | he
      · refine ⟨rfl, _, _, Since.now hnow.length_le, ?_⟩
        rw [after_concat, hmove]
        exact (searchIn_eq (home_after first moves) rfl rfl path tests).symm
      · exact hsame e he
  | setExclusions exclusions =>
    obtain ⟨rfl, rfl⟩ := List.cons.inj ((List.suffix_cons_iff.1 hscopes).resolve_right houter)
    exact fun e he => absurd he List.not_mem_nil
  | change tree => exact h.concat_of_suffix hscopes hnow fun hset => nomatch hset
  | enter root capacity =>
    rcases List.suffix_cons_iff.1 hscopes with hnew | hbefore
    · obtain ⟨rfl, rfl⟩ := List.cons.inj hnew
      exact fun e he => absurd he List.not_mem_nil
    · exact h.concat_of_suffix hbefore hnow fun hset => nomatch hset
  | leave =>
    refine h.concat_of_suffix ?_ hnow fun hset => nomatch hset
    simp only [move, leave?] at hscopes
    cases hrest : (first.after moves).outer with
    | nil =>
      rw [hrest] at hscopes
      exact hscopes
    | cons next outer =>
      rw [hrest] at hscopes houter
      exact absurd hscopes houter

theorem remembersFound (h : ∀ scope ∈ first.scopes, scope.searches.entries = [])
    (moves : List Move) : RemembersFound first moves := by
  induction moves using List.reverseRecOn with
  | nil =>
    intro scope below hsuffix e he
    rw [h scope (hsuffix.mem List.mem_cons_self)] at he
    exact absurd he List.not_mem_nil
  | append_singleton moves m ih => exact ih.concat m

def IsBounded (scope : Scope) : Prop :=
  0 < scope.searches.capacity ∧ scope.searches.entries.length ≤ scope.searches.capacity

theorem isBounded_move (hm : m.IsRoomy) (h : ∀ scope ∈ s.scopes, IsBounded scope) :
    ∀ scope ∈ (s.move m).scopes, IsBounded scope := by
  have hpresent : IsBounded s.scope := h _ List.mem_cons_self
  have houter : ∀ scope ∈ s.outer, IsBounded scope := fun scope hscope =>
    h scope (List.mem_cons_of_mem _ hscope)
  cases m with
  | find path tests =>
    obtain ⟨searches, hmove, hsearches⟩ := exists_search_move s path tests
    rw [hmove]
    refine List.forall_mem_cons.2 ⟨?_, houter⟩
    rcases hsearches with rfl | hput
    · exact hpresent
    · obtain ⟨hcapacity, hlength⟩ := Cache.length_put hput
      exact ⟨hcapacity ▸ hpresent.1, hcapacity ▸ hlength hpresent.2⟩
  | setExclusions exclusions =>
    exact List.forall_mem_cons.2 ⟨⟨hpresent.1, Nat.zero_le _⟩, houter⟩
  | change tree => exact h
  | enter root capacity => exact List.forall_mem_cons.2 ⟨⟨hm, Nat.zero_le _⟩, h⟩
  | leave =>
    simp only [move, leave?]
    cases hrest : s.outer with
    | nil => exact h
    | cons next outer =>
      rw [hrest] at houter
      exact houter

theorem isBounded_after (hmoves : ∀ m ∈ moves, m.IsRoomy)
    (h : ∀ scope ∈ s.scopes, IsBounded scope) :
    ∀ scope ∈ (s.after moves).scopes, IsBounded scope := by
  induction moves generalizing s with
  | nil => exact h
  | cons m moves ih =>
    obtain ⟨hm, hmoves⟩ := List.forall_mem_cons.1 hmoves
    exact ih hmoves (isBounded_move hm h)

/-! ## The law of runs -/

structure Coherent (first : Session) (moves : List Move) : Prop where
  /-- A search finds what was there at a moment since its scope was entered and its exclusions were
  set. -/
  finds : ∀ path tests, ∃ early late next,
    Since first (first.after moves).depth moves early late ∧
    (first.after moves).search path tests =
      .ok ({ first.after moves with tree := (first.after early).tree }.searchNow path tests, next)
  /-- If the files were the same at all those moments, it finds what is there now. -/
  findsNow : (∀ early late, Since first (first.after moves).depth moves early late →
      (first.after early).tree = (first.after moves).tree) →
    ∀ path tests, ∃ next,
      (first.after moves).search path tests = .ok ((first.after moves).searchNow path tests, next)
  bounded : ∀ scope ∈ (first.after moves).scopes,
    scope.searches.entries.length ≤ scope.searches.capacity
  /-- A scope that is left gives way to the scopes as they were when it was entered. -/
  restored : ∀ early root capacity inner, moves = early ++ .enter root capacity :: inner ++ [.leave] →
    StaysOpen ((first.after early).depth + 1) ((first.after early).enter root capacity) inner →
    (((first.after early).enter root capacity).after inner).depth = (first.after early).depth + 1 →
    (first.after moves).scopes = (first.after early).scopes

theorem exists_search_eq (h : RemembersFound first moves)
    (hcapacity : 0 < (first.after moves).scope.searches.capacity) (path : String) (tests : Bool) :
    ∃ early late next, Since first (first.after moves).depth moves early late ∧
      (first.after moves).search path tests =
        .ok ({ first.after moves with tree := (first.after early).tree }.searchNow path tests,
          next) := by
  rw [search]
  cases hget : (first.after moves).scope.searches.get?
      ⟨path, tests, (first.after moves).scope.exclusions⟩ with
  | some files =>
    obtain ⟨-, early, late, hsince, hfiles⟩ :=
      h _ _ (List.suffix_refl _) _ (Table.mem_of_get? hget)
    have hthen : first.searchIn (first.after moves).scope (first.after early).tree path tests =
        { first.after moves with tree := (first.after early).tree }.searchNow path tests :=
      searchIn_eq (t := { first.after moves with tree := (first.after early).tree })
        (home_after first moves) rfl rfl path tests
    exact ⟨early, late, first.after moves, hsince,
      congrArg (fun files => Except.ok (files, first.after moves)) (hfiles.trans hthen)⟩
  | none =>
    obtain ⟨searches, hput, -⟩ := (first.after moves).scope.searches.exists_put hcapacity
      ⟨path, tests, (first.after moves).scope.exclusions⟩ ((first.after moves).searchNow path tests)
    refine ⟨moves, [], { first.after moves with
      scope := { (first.after moves).scope with searches := searches } },
      Since.now (Nat.le_refl _), ?_⟩
    simp only [hput]
    rfl

/-- In every run in which each scope has room for one search at least, searches are coherent. -/
theorem search_coherent (tree : Directory) (home : Location) (root : Option Path) {capacity : Nat}
    (hcapacity : 0 < capacity) (moves : List Move) (hmoves : ∀ m ∈ moves, m.IsRoomy) :
    Coherent (start tree home root capacity) moves := by
  have hremembers : RemembersFound (start tree home root capacity) moves :=
    remembersFound (fun scope hscope => by rw [List.mem_singleton.1 hscope]; rfl) moves
  have hbounded := isBounded_after (s := start tree home root capacity) hmoves fun scope hscope => by
    rw [List.mem_singleton.1 hscope]
    exact ⟨hcapacity, Nat.zero_le _⟩
  have hfinds := exists_search_eq hremembers (hbounded _ List.mem_cons_self).1
  refine ⟨hfinds, ?_, fun scope hscope => (hbounded scope hscope).2, ?_⟩
  · intro hsame path tests
    obtain ⟨early, late, next, hsince, hsearch⟩ := hfinds path tests
    rw [hsame early late hsince] at hsearch
    exact ⟨next, hsearch⟩
  · rintro early root capacity inner rfl hopen hdepth
    rw [after_concat, after_append]
    exact scopes_leave hopen hdepth

def oneFile : Session :=
  start (.sub "p" (.file "a.go" (some []) .empty) .empty) ["p"] none 1

def secondFileLate : List Move :=
  [.find "." false,
    .change (.sub "p" (.file "a.go" (some []) (.file "b.go" (some []) .empty)) .empty),
    .enter none 1, .setExclusions ["a.go"], .leave]

/-- A search after that still finds the one file of the first search. -/
theorem search_coherent_secondFileLate :
    0 < 1 ∧ (∀ m ∈ secondFileLate, m.IsRoomy) ∧ Coherent oneFile secondFileLate ∧
      ((oneFile.after secondFileLate).search "." false).map Prod.fst = .ok ["a.go"] := by
  have hmoves : ∀ m ∈ secondFileLate, m.IsRoomy := by
    simp [secondFileLate, Move.IsRoomy]
  have hfound : oneFile.searchNow "." false = ["a.go"] := by cbv
  have hremembers : oneFile.move (.find "." false) = { oneFile with
      scope := { oneFile.scope with searches := ⟨1, [(⟨".", false, []⟩, ["a.go"])]⟩ } } := by
    rw [move, search, hfound]
    rfl
  refine ⟨Nat.one_pos, hmoves, search_coherent _ _ _ Nat.one_pos _ hmoves, ?_⟩
  rw [secondFileLate, after, List.foldl_cons, hremembers]
  rfl

end Session

end ImportSurvey.Workspace
