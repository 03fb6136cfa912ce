import ImportSurvey.Proofs.Workspace.Remembered
import Mathlib.Data.List.Induction
/-!
# Texts as they were first read

While a scope remembers texts, reading a path gives what was there when the path was first read since
that was switched on, be it that there was nothing to read; otherwise it gives what is there now and
nothing is remembered. This is told from the accesses alone: what a path was first read as does not
change by reading other paths or by changes of the tree, and every switch forgets all.
-/

namespace ImportSurvey.Workspace

inductive Access
  | enable
  | disable
  | read (path : String)
  | change (tree : Directory)

def Access.isSwitch : Access → Bool
  | enable | disable => true
  | read _ | change _ => false

namespace Session

/-- After the accesses `early` the path is read for the first time since texts were switched on, which
was the last switch of the whole run. -/
structure FirstRead (path : String) (run early : List Access) : Prop where
  isRead : ∃ late, run = early ++ .read path :: late ∧ ∀ a ∈ late, a.isSwitch = false
  isFirst : ∃ before since, early = before ++ .enable :: since ∧
    (∀ a ∈ since, a.isSwitch = false) ∧ .read path ∉ since

def access (s : Session) : Access → Session
  | .enable => s.enableTexts
  | .disable => s.disableTexts
  | .read path => (s.readText path).2
  | .change tree => { s with tree := tree }

def afterAccesses (s : Session) (run : List Access) : Session :=
  run.foldl access s

variable {s : Session} {a : Access} {run early : List Access} {path : String}
  {text : Option String}

private theorem afterAccesses_append (s : Session) (early late : List Access) :
    s.afterAccesses (early ++ late) = (s.afterAccesses early).afterAccesses late :=
  List.foldl_append

private theorem afterAccesses_concat (s : Session) (run : List Access) (a : Access) :
    s.afterAccesses (run ++ [a]) = (s.afterAccesses run).access a :=
  afterAccesses_append s run [a]

/-! ## Reading once -/

theorem readText_of_disabled (h : s.scope.texts.enabled = false) (path : String) :
    s.readText path = (s.textNow path, s) := by
  simp only [readText, TextCache.read, h, Bool.false_eq_true, if_false]
  rfl

theorem readText_of_get? (h : s.scope.texts.enabled = true)
    (hget : s.scope.texts.texts.get? path = some text) : s.readText path = (text, s) := by
  simp only [readText, TextCache.read, h, if_true, hget]

theorem readText_of_get?_eq_none (h : s.scope.texts.enabled = true)
    (hget : s.scope.texts.texts.get? path = none) :
    s.readText path = (s.textNow path, { s with scope := { s.scope with
      texts := ⟨true, s.scope.texts.texts.put path (s.textNow path)⟩ } }) := by
  simp only [readText, TextCache.read, h, if_true, hget]
  rfl

theorem texts_readText (s : Session) (path : String) :
    (s.readText path).2.scope.texts.enabled = s.scope.texts.enabled ∧
      ((s.readText path).2.scope.texts.texts = s.scope.texts.texts ∨
        s.scope.texts.enabled = true ∧ s.scope.texts.texts.get? path = none ∧
          (s.readText path).2.scope.texts.texts =
            s.scope.texts.texts.put path (s.textNow path)) := by
  cases henabled : s.scope.texts.enabled with
  | false =>
    rw [readText_of_disabled henabled]
    exact ⟨henabled, Or.inl rfl⟩
  | true =>
    cases hget : s.scope.texts.texts.get? path with
    | some text =>
      rw [readText_of_get? henabled hget]
      exact ⟨henabled, Or.inl rfl⟩
    | none =>
      rw [readText_of_get?_eq_none henabled hget]
      exact ⟨rfl, Or.inr ⟨rfl, rfl, rfl⟩⟩

/-! ## One access -/

theorem enabled_access (h : a.isSwitch = false) (s : Session) :
    (s.access a).scope.texts.enabled = s.scope.texts.enabled := by
  cases a with
  | enable | disable => cases h
  | read path => exact (texts_readText s path).1
  | change tree => rfl

/-- What is remembered of a path stays until the next switch. -/
theorem get?_access_of_some (h : a.isSwitch = false)
    (hget : s.scope.texts.texts.get? path = some text) :
    (s.access a).scope.texts.texts.get? path = some text := by
  cases a with
  | enable | disable => cases h
  | read other =>
    rcases (texts_readText s other).2 with hsame | ⟨-, hnone, hput⟩
    · exact (congrArg (Table.get? · path) hsame).trans hget
    · have hne : path ≠ other := by
        rintro rfl
        rw [hnone] at hget
        contradiction
      rw [access, hput, Table.get?_put, if_neg hne, hget]
  | change tree => exact hget

theorem get?_access_of_ne (h : a.isSwitch = false) (hne : a ≠ .read path) (s : Session) :
    (s.access a).scope.texts.texts.get? path = s.scope.texts.texts.get? path := by
  cases a with
  | enable | disable => cases h
  | read other =>
    rcases (texts_readText s other).2 with hsame | ⟨-, -, hput⟩
    · exact congrArg (Table.get? · path) hsame
    · have hpath : path ≠ other := fun heq => hne (congrArg Access.read heq.symm)
      rw [access, hput, Table.get?_put, if_neg hpath]
  | change tree => rfl

theorem texts_access_eq_nil (h : s.scope.texts.enabled = false → s.scope.texts.texts = [])
    (a : Access) (hoff : (s.access a).scope.texts.enabled = false) :
    (s.access a).scope.texts.texts = [] := by
  cases a with
  | enable => cases hoff
  | disable => rfl
  | read path =>
    rw [enabled_access rfl] at hoff
    rw [access, readText_of_disabled hoff]
    exact h hoff
  | change tree => exact h hoff

/-! ## Runs -/

theorem enabled_afterAccesses (h : ∀ a ∈ run, a.isSwitch = false) (s : Session) :
    (s.afterAccesses run).scope.texts.enabled = s.scope.texts.enabled := by
  induction run generalizing s with
  | nil => rfl
  | cons a run ih =>
    obtain ⟨ha, hrun⟩ := List.forall_mem_cons.1 h
    exact (ih hrun (s.access a)).trans (enabled_access ha s)

theorem get?_afterAccesses_of_some (h : ∀ a ∈ run, a.isSwitch = false)
    (hget : s.scope.texts.texts.get? path = some text) :
    (s.afterAccesses run).scope.texts.texts.get? path = some text := by
  induction run generalizing s with
  | nil => exact hget
  | cons a run ih =>
    obtain ⟨ha, hrun⟩ := List.forall_mem_cons.1 h
    exact ih hrun (get?_access_of_some ha hget)

theorem get?_afterAccesses_of_not_mem (h : ∀ a ∈ run, a.isSwitch = false)
    (hpath : .read path ∉ run) (s : Session) :
    (s.afterAccesses run).scope.texts.texts.get? path = s.scope.texts.texts.get? path := by
  induction run generalizing s with
  | nil => rfl
  | cons a run ih =>
    obtain ⟨ha, hrun⟩ := List.forall_mem_cons.1 h
    obtain ⟨hne, hrest⟩ := not_or.1 (List.mem_cons.not.1 hpath)
    exact (ih hrun hrest (s.access a)).trans (get?_access_of_ne ha (Ne.symm hne) s)

theorem texts_afterAccesses_eq_nil (h : s.scope.texts.enabled = false → s.scope.texts.texts = [])
    (run : List Access) (hoff : (s.afterAccesses run).scope.texts.enabled = false) :
    (s.afterAccesses run).scope.texts.texts = [] := by
  induction run generalizing s with
  | nil => exact h hoff
  | cons a run ih => exact ih (texts_access_eq_nil h a) hoff

/-- A scope that remembers texts was switched on at some moment and not switched since. -/
theorem exists_enable (h : s.scope.texts.enabled = false)
    (hon : (s.afterAccesses run).scope.texts.enabled = true) :
    ∃ before since, run = before ++ .enable :: since ∧ ∀ a ∈ since, a.isSwitch = false := by
  -- from the end, as it is the last switch that counts
  induction run using List.reverseRecOn with
  | nil => exact absurd (h.symm.trans hon) Bool.false_ne_true
  | append_singleton run a ih =>
    rw [afterAccesses_concat] at hon
    by_cases hswitch : a.isSwitch = true
    · cases a with
      | enable => exact ⟨run, [], rfl, fun _ hmem => absurd hmem List.not_mem_nil⟩
      | disable => cases hon
      | read _ | change _ => cases hswitch
    · rw [Bool.not_eq_true] at hswitch
      rw [enabled_access hswitch] at hon
      obtain ⟨before, since, rfl, hsince⟩ := ih hon
      refine ⟨before, since ++ [a], by simp, fun b hb => ?_⟩
      rcases List.mem_append.1 hb with hb | hb
      · exact hsince b hb
      · exact List.mem_singleton.1 hb ▸ hswitch

/-! ## First reads -/

theorem FirstRead.fresh (h : FirstRead path run early) (s : Session) :
    (s.afterAccesses early).scope.texts.enabled = true ∧
      (s.afterAccesses early).scope.texts.texts.get? path = none := by
  obtain ⟨before, since, rfl, hsince, hpath⟩ := h.isFirst
  have hsplit : s.afterAccesses (before ++ .enable :: since) =
      ((s.afterAccesses before).enableTexts).afterAccesses since :=
    afterAccesses_append s before (.enable :: since)
  rw [hsplit, enabled_afterAccesses hsince, get?_afterAccesses_of_not_mem hsince hpath]
  exact ⟨rfl, rfl⟩

theorem kept_afterAccesses_read (hon : s.scope.texts.enabled = true)
    (hnone : s.scope.texts.texts.get? path = none) (h : ∀ a ∈ run, a.isSwitch = false) :
    (s.afterAccesses (.read path :: run)).scope.texts.enabled = true ∧
      (s.afterAccesses (.read path :: run)).scope.texts.texts.get? path =
        some (s.textNow path) := by
  have hread : (s.access (.read path)).scope.texts.texts.get? path = some (s.textNow path) := by
    rw [access, readText_of_get?_eq_none hon hnone, Table.get?_put, if_pos rfl]
  have hafter : s.afterAccesses (.read path :: run) =
      (s.access (.read path)).afterAccesses run := rfl
  rw [hafter, enabled_afterAccesses h, enabled_access rfl]
  exact ⟨hon, get?_afterAccesses_of_some h hread⟩

/-- A read that is the first one, or comes after it with no switch between, gives what the first one
gave. -/
theorem FirstRead.readText_eq (h : FirstRead path (run ++ [.read path]) early) (s : Session) :
    (s.afterAccesses run).scope.texts.enabled = true ∧
      ((s.afterAccesses run).readText path).1 = (s.afterAccesses early).textNow path := by
  obtain ⟨hon, hnone⟩ := h.fresh s
  obtain ⟨late, hrun, hlate⟩ := h.isRead
  -- this read is the first one itself, or the last of those that come after it
  rcases List.eq_nil_or_concat late with rfl | ⟨between, last, rfl⟩
  · obtain rfl : run = early := List.append_cancel_right hrun
    rw [readText_of_get?_eq_none hon hnone]
    exact ⟨hon, rfl⟩
  · have hsplit : run ++ [.read path] = (early ++ .read path :: between) ++ [last] := by
      rw [hrun, List.concat_eq_append, List.append_assoc, List.cons_append]
    obtain ⟨rfl, -⟩ := List.append_inj' hsplit rfl
    have hbetween : ∀ a ∈ between, a.isSwitch = false := fun a ha =>
      hlate a (by rw [List.concat_eq_append]; exact List.mem_append_left _ ha)
    rw [afterAccesses_append]
    obtain ⟨hstill, hkept⟩ := kept_afterAccesses_read hon hnone hbetween
    rw [readText_of_get? hstill hkept]
    exact ⟨hstill, rfl⟩

theorem exists_firstRead (h : s.scope.texts.enabled = false)
    (hon : (s.afterAccesses run).scope.texts.enabled = true) (path : String) :
    ∃ early, FirstRead path (run ++ [.read path]) early := by
  obtain ⟨before, since, rfl, hsince⟩ := exists_enable h hon
  have hall : ∀ a ∈ since ++ [Access.read path], a.isSwitch = false := by
    intro a ha
    rcases List.mem_append.1 ha with ha | ha
    · exact hsince a ha
    · rw [List.mem_singleton.1 ha]
      rfl
  obtain ⟨between, late, hsplit, hfirst⟩ := List.eq_append_cons_of_mem
    (List.mem_append_right since (List.mem_singleton_self (Access.read path)))
  rw [hsplit] at hall
  refine ⟨before ++ .enable :: between, ⟨late, ?_, fun a ha => ?_⟩, before, between, rfl,
    fun a ha => ?_, hfirst⟩
  · rw [List.append_assoc, List.cons_append, hsplit, List.append_assoc, List.cons_append]
  · exact hall a (List.mem_append_right _ (List.mem_cons_of_mem _ ha))
  · exact hall a (List.mem_append_left _ ha)

/-- Reading a path after any accesses: a scope remembers texts exactly if switching that on was the last
switch, and then reading gives what an uncached read gave when the path was first read since, even if
that was nothing. A scope that does not remember texts gives what is there now and holds none. -/
theorem readText_snapshot (hs : s.scope.texts = {}) (run : List Access) (path : String) :
    ((s.afterAccesses run).scope.texts.enabled = true ↔
      ∃ early, FirstRead path (run ++ [.read path]) early) ∧
    (∀ early, FirstRead path (run ++ [.read path]) early →
      ((s.afterAccesses run).readText path).1 = (s.afterAccesses early).textNow path) ∧
    ((s.afterAccesses run).scope.texts.enabled = false →
      ((s.afterAccesses run).readText path).1 = (s.afterAccesses run).textNow path ∧
      (s.afterAccesses run).scope.texts.texts = []) := by
  have hoff : s.scope.texts.enabled = false := by rw [hs]
  have hempty : s.scope.texts.texts = [] := by rw [hs]
  refine ⟨⟨fun hon => exists_firstRead hoff hon path, fun ⟨_, hfirst⟩ =>
    (hfirst.readText_eq s).1⟩, fun _ hfirst => (hfirst.readText_eq s).2, fun hnow => ⟨?_, ?_⟩⟩
  · rw [readText_of_disabled hnow]
  · exact texts_afterAccesses_eq_nil (fun _ => hempty) run hnow

def lateFile : List Access :=
  [.enable, .read "a.go", .change (.sub "project" (.file "a.go" (some [0x70]) .empty) .empty)]

/-- The file goes on to be missing until texts are no longer remembered. -/
theorem readText_snapshot_lateFile :
    ∃ s : Session, s.scope.texts = {} ∧
      ((s.afterAccesses lateFile).readText "a.go").1 = none ∧
      ((s.afterAccesses lateFile).textNow "a.go").isSome = true ∧
      ((s.afterAccesses (lateFile ++ [.disable])).readText "a.go").1.isSome = true := by
  let s : Session := .start .empty ["project"] none usualCapacity
  have hfirst : FirstRead "a.go" (lateFile ++ [.read "a.go"]) [.enable] := by
    refine ⟨⟨lateFile.drop 2 ++ [.read "a.go"], rfl, ?_⟩, [], [], rfl, ?_, List.not_mem_nil⟩
    · simp [lateFile, Access.isSwitch]
    · exact fun a ha => absurd ha List.not_mem_nil
  have hread := (readText_snapshot (s := s) rfl lateFile "a.go").2.1 [.enable] hfirst
  have hoff := (readText_snapshot (s := s) rfl (lateFile ++ [.disable]) "a.go").2.2 rfl
  refine ⟨s, rfl, hread.trans rfl, rfl, ?_⟩
  rw [hoff.1]
  rfl

end Session

end ImportSurvey.Workspace
