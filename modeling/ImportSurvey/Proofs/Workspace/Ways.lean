import ImportSurvey.Proofs.Workspace.Files
import Mathlib.Data.List.Induction
/-!
# Ways between locations

A way goes up from one location to where the other parts from it, and down from there. Taken from
the location that it starts at it leads to the other one. Taken from somewhere else it still goes up
and down as far, so where it ends depends on names that it does not mention.
-/

namespace ImportSurvey.Workspace

variable {root here home l shared back ahead way dirs more : List String} {name part : String}

/-! ## Where locations part -/

/-- Two locations have `shared` in common and go on differently. -/
structure PartsAt (root l shared back ahead : List String) : Prop where
  root_eq : root = shared ++ back
  target_eq : l = shared ++ ahead
  head_ne : ∀ n, back.head? = some n → ahead.head? ≠ some n

theorem exists_partsAt :
    ∀ root l : List String, ∃ shared back ahead, PartsAt root l shared back ahead
  | [], l => ⟨[], [], l, rfl, rfl, by simp⟩
  | r :: root, [] => ⟨[], r :: root, [], rfl, rfl, by simp⟩
  | r :: root, n :: l => by
    by_cases h : r = n
    · subst h
      obtain ⟨shared, back, ahead, rfl, rfl, hne⟩ := exists_partsAt root l
      exact ⟨r :: shared, back, ahead, rfl, rfl, hne⟩
    · refine ⟨[], r :: root, n :: l, rfl, rfl, fun m hr hn => h ?_⟩
      exact (Option.some.inj hr).trans (Option.some.inj hn).symm

theorem wayTo_append_append (shared back ahead : List String) :
    wayTo (shared ++ back) (shared ++ ahead) = wayTo back ahead := by
  induction shared with
  | nil => rfl
  | cons n shared ih => rw [List.cons_append, List.cons_append, wayTo, if_pos rfl, ih]

/-- A way goes up to where the locations part, and down from there. -/
theorem PartsAt.wayTo_eq (h : PartsAt root l shared back ahead) :
    wayTo root l = List.replicate back.length ".." ++ ahead := by
  obtain ⟨rfl, rfl, hne⟩ := h
  rw [wayTo_append_append]
  cases back with
  | nil => rfl
  | cons b back =>
    cases ahead with
    | nil => rfl
    | cons a ahead =>
      have hba : b ≠ a := fun heq => hne b rfl (by rw [heq]; rfl)
      rw [wayTo, if_neg hba]
      rfl

theorem wayTo_concat (h : ¬ l ++ [name] <+: root) :
    wayTo root (l ++ [name]) = wayTo root l ++ [name] := by
  obtain ⟨shared, back, ahead, hparts⟩ := exists_partsAt root l
  have hnext : PartsAt root (l ++ [name]) shared back (ahead ++ [name]) := by
    refine ⟨hparts.root_eq, by rw [hparts.target_eq, List.append_assoc], fun n hback => ?_⟩
    cases ahead with
    | cons a ahead => exact hparts.head_ne n hback
    | nil =>
      intro hname
      obtain rfl : name = n := Option.some.inj hname
      obtain ⟨rest, rfl⟩ : ∃ rest, back = name :: rest := by
        cases back with
        | nil => contradiction
        | cons b rest => exact ⟨rest, by rw [Option.some.inj hback]⟩
      apply h
      rw [hparts.root_eq, hparts.target_eq, List.append_nil]
      exact ⟨rest, by simp⟩
  rw [hnext.wayTo_eq, hparts.wayTo_eq, List.append_assoc]

theorem mem_wayTo_append (h : part ∈ wayTo root (here ++ more)) :
    part = ".." ∨ part ∈ wayTo root here ∨ part ∈ more := by
  induction root generalizing here with
  | nil => exact Or.inr (by simpa [wayTo] using h)
  | cons r root ih =>
    cases here with
    | nil => exact (mem_wayTo h).imp_right Or.inr
    | cons n here =>
      rw [List.cons_append, wayTo] at h
      rw [wayTo]
      by_cases hr : r = n
      · rw [if_pos hr] at h ⊢
        exact ih h
      · rw [if_neg hr] at h ⊢
        rw [← List.cons_append, ← List.append_assoc, List.mem_append] at h
        exact Or.inr h

/-! ## Following a way -/

private theorem foldl_step_up (home : List String) (n : Nat) :
    (List.replicate n "..").foldl Path.step home = home.take (home.length - n) := by
  induction n generalizing home with
  | zero => simp
  | succ n ih =>
    have hstep : Path.step home ".." = home.take (home.length - 1) := by
      rw [Path.step, if_pos rfl, List.dropLast_eq_take]
    rw [List.replicate_succ, List.foldl_cons, ih, hstep, List.take_take, List.length_take]
    congr 1
    omega

theorem PartsAt.foldl_step_wayTo (h : PartsAt root l shared back ahead) (hup : ".." ∉ l)
    (home : List String) :
    (wayTo root l).foldl Path.step home = home.take (home.length - back.length) ++ ahead := by
  rw [h.wayTo_eq, List.foldl_append, foldl_step_up]
  apply foldl_step
  rintro part hpart rfl
  exact hup (h.target_eq ▸ List.mem_append_right shared hpart)

/-- A way leads from its start to its target. -/
theorem foldl_step_wayTo (hup : ".." ∉ l) (root : List String) :
    (wayTo root l).foldl Path.step root = l := by
  obtain ⟨shared, back, ahead, h⟩ := exists_partsAt root l
  rw [h.foldl_step_wayTo hup, h.root_eq, List.length_append, Nat.add_sub_cancel, List.take_left]
  exact h.target_eq.symm

theorem wayTo_eq_iff (hl : ".." ∉ l) (hway : ".." ∉ way) :
    wayTo root l = way ↔ l = root ++ way := by
  constructor
  · rintro rfl
    rw [← foldl_step fun part hpart => ?_, foldl_step_wayTo hl]
    rintro rfl
    exact hway hpart
  · rintro rfl
    exact wayTo_self_append root way

theorem mem_foldl_step (h : name ∈ way.foldl Path.step home) :
    name ∈ home ∨ name ∈ way ∧ name ≠ ".." := by
  induction way generalizing home with
  | nil => exact Or.inl h
  | cons part way ih =>
    rcases ih h with hstep | ⟨hmem, hne⟩
    · by_cases hup : part = ".."
      · rw [Path.step, if_pos hup] at hstep
        exact Or.inl ((List.dropLast_prefix home).mem hstep)
      · rw [Path.step, if_neg hup] at hstep
        rcases List.mem_append.1 hstep with hhome | hpart
        · exact Or.inl hhome
        · obtain rfl := List.mem_singleton.1 hpart
          exact Or.inr ⟨List.mem_cons_self, hup⟩
    · exact Or.inr ⟨List.mem_cons_of_mem part hmem, hne⟩

theorem mem_location {p : Path} (h : name ∈ p.location []) : name ∈ p.parts ∧ name ≠ ".." := by
  rw [Path.location, ite_self] at h
  exact (mem_foldl_step h).resolve_left List.not_mem_nil

/-! ## Following a way in a tree -/

namespace Trail

variable {top d : Directory} {above : List Directory}

theorem exists_lookup?_up (h : Trail top (shared ++ back) above d) (parts : List String) :
    ∃ mid before, Trail top shared before mid ∧
      d.lookup? above (List.replicate back.length ".." ++ parts) = mid.lookup? before parts := by
  induction back using List.reverseRecOn generalizing d above with
  | nil =>
    rw [List.append_nil] at h
    exact ⟨d, above, h, rfl⟩
  | append_singleton back name ih =>
    rw [← List.append_assoc] at h
    generalize hl : shared ++ back ++ [name] = l at h
    cases h with
    | top => exact absurd hl (by simp)
    | @step l above here _ other h hname hentry =>
      obtain ⟨hl, -⟩ := List.append_inj' hl rfl
      obtain ⟨mid, before, hmid, hlookup⟩ := ih (hl ▸ h)
      refine ⟨mid, before, hmid, ?_⟩
      rw [List.length_append, List.length_singleton, List.replicate_succ, List.cons_append, ← hlookup]
      simp only [Directory.lookup?, if_true]

/-- From where a trail leads, the way to a location leads to what is there. -/
theorem lookup?_wayTo (h : Trail top l above d) (target : List String) :
    d.lookup? above (wayTo l target) = top.lookup? [] target := by
  obtain ⟨shared, back, ahead, hparts⟩ := exists_partsAt l target
  rw [hparts.root_eq] at h
  obtain ⟨mid, before, hmid, hlookup⟩ := h.exists_lookup?_up ahead
  rw [hparts.wayTo_eq, hlookup, hparts.target_eq, hmid.lookup?_append]

end Trail

/-! ## Ways taken from elsewhere -/

/-- A location has some names one after the other, the last of them `n` places before its end. -/
def HasNames (l names : List String) (n : Nat) : Prop :=
  ∃ base others, l = base ++ (names ++ others) ∧ others.length = n

/-- Seen from `here`, the location `home` can stand in for `root` along `dirs`: as far as the way
down to `root` goes along `dirs`, `home` has the same names as far from its end as `root`. -/
def StandsIn (home here root dirs : List String) : Prop :=
  ∀ shared rest, root = here ++ (shared ++ rest) → shared ≠ [] → shared <+: dirs →
    HasNames home shared rest.length

theorem standsIn_self (here root dirs : List String) : StandsIn root here root dirs :=
  fun _ rest hroot _ _ => ⟨here, rest, hroot, rfl⟩

theorem standsIn_of_not_below (h : here <+: root → here = root) (home dirs : List String) :
    StandsIn home here root dirs := by
  intro shared rest hroot hne _
  have hself := h (hroot ▸ List.prefix_append _ _)
  have hlength := congrArg List.length hroot
  have hpos := List.length_pos_iff.2 hne
  rw [hself, List.length_append, List.length_append] at hlength
  omega

theorem standsIn_append_iff (h : PartsAt more dirs shared back ahead) :
    StandsIn home here (here ++ more) dirs ↔ shared = [] ∨ HasNames home shared back.length := by
  constructor
  · intro hstands
    by_cases hempty : shared = []
    · exact Or.inl hempty
    · right
      apply hstands shared back (by rw [h.root_eq]) hempty
      rw [h.target_eq]
      exact List.prefix_append _ _
  · intro hmost common rest hroot hne hcommon
    have hmore : shared ++ back = common ++ rest :=
      h.root_eq.symm.trans (List.append_cancel_left hroot)
    -- what both go along ends before they part
    have hpre : common <+: shared := by
      rcases List.append_eq_append_iff.1 hmore with ⟨cs, rfl, hback⟩ | ⟨cs, rfl, -⟩
      · cases cs with
        | nil => simp
        | cons c cs =>
          obtain ⟨after, hafter⟩ := hcommon
          rw [h.target_eq, List.append_assoc] at hafter
          have hahead : ahead = c :: cs ++ after := (List.append_cancel_left hafter).symm
          exact absurd (by rw [hahead]; rfl) (h.head_ne c (by rw [hback]; rfl))
      · exact List.prefix_append _ _
    obtain ⟨cs, rfl⟩ := hpre
    rcases hmost with hempty | ⟨base, others, rfl, hlength⟩
    · exact absurd (List.append_eq_nil_iff.1 hempty).1 hne
    · refine ⟨base, cs ++ others, by simp only [List.append_assoc], ?_⟩
      rw [List.append_assoc] at hmore
      rw [← List.append_cancel_left hmore, List.length_append, List.length_append, hlength]

private theorem take_eq_append_iff (home shared back : List String) :
    home.take (home.length - back.length) =
        home.take (home.length - (shared ++ back).length) ++ shared ↔
      shared = [] ∨ HasNames home shared back.length := by
  constructor
  · intro heq
    by_cases hback : back.length ≤ home.length
    · right
      refine ⟨home.take (home.length - (shared ++ back).length),
        home.drop (home.length - back.length), ?_, ?_⟩
      · rw [← List.append_assoc, ← heq, List.take_append_drop]
      · rw [List.length_drop]
        omega
    · left
      rw [show home.length - back.length = 0 by omega, List.take_zero] at heq
      exact (List.append_eq_nil_iff.1 heq.symm).2
  · rintro (rfl | ⟨base, others, rfl, hlength⟩)
    · simp
    · have hto : (base ++ (shared ++ others)).length - back.length = (base ++ shared).length := by
        simp only [List.length_append]
        omega
      have hbase : (base ++ (shared ++ others)).length - (shared ++ back).length = base.length := by
        simp only [List.length_append]
        omega
      rw [hto, hbase, ← List.append_assoc, List.take_left, List.append_assoc, List.take_left]

/-- Two ways that lead from `root` to `here` and on along `dirs` do so from `home` as well, exactly
if `home` can stand in for `root`. -/
theorem foldl_step_wayTo_append_iff (hdirs : ".." ∉ dirs) :
    (wayTo root (here ++ dirs)).foldl Path.step home =
        (wayTo root here).foldl Path.step home ++ dirs ↔
      StandsIn home here root dirs := by
  by_cases hbelow : here <+: root → here = root
  · refine iff_of_true ?_ (standsIn_of_not_below hbelow home dirs)
    rw [wayTo_append hbelow, List.foldl_append]
    apply foldl_step
    rintro part hpart rfl
    exact hdirs hpart
  · obtain ⟨more, rfl⟩ : here <+: root := by
      by_contra hpre
      exact hbelow fun h => absurd h hpre
    obtain ⟨shared, back, ahead, hparts⟩ := exists_partsAt more dirs
    have habove : PartsAt (here ++ more) here here more [] :=
      ⟨rfl, (List.append_nil here).symm, fun n _ => nofun⟩
    have hup : wayTo (here ++ more) here = List.replicate more.length ".." := by
      rw [habove.wayTo_eq, List.append_nil]
    rw [wayTo_append_append, hup, foldl_step_up, hparts.foldl_step_wayTo hdirs,
      standsIn_append_iff hparts, ← take_eq_append_iff, ← hparts.root_eq]
    conv_lhs => rw [hparts.target_eq, ← List.append_assoc]
    exact List.append_left_inj ahead

end ImportSurvey.Workspace
