import ImportSurvey.CommandLine.Run
/-!
# What a run writes

How a run ends and what it leaves of the state it started from, step by step. Showing something adds
lines to one of the two streams and changes nothing else, so what a command shows is one line after the
other, and a failure ends it with the lines it has shown so far and one more.
-/

namespace ImportSurvey.CommandLine

open Terminal Workspace

def asLines (lines : List String) : String :=
  lines.foldr (fun line rest => line ++ "\n" ++ rest) ""

@[simp] theorem asLines_nil : asLines [] = "" := rfl

@[simp] theorem asLines_cons (line : String) (lines : List String) :
    asLines (line :: lines) = line ++ "\n" ++ asLines lines := rfl

theorem asLines_append (first more : List String) :
    asLines (first ++ more) = asLines first ++ asLines more := by
  induction first with
  | nil => simp
  | cons line first ih => simp [ih, String.append_assoc]

namespace State

def withOut (s : State) (lines : List String) : State :=
  { s with out := s.out ++ asLines lines }

def withErr (s : State) (lines : List String) : State :=
  { s with err := s.err ++ asLines lines }

def reading (s : State) (file : String) : State :=
  { s with session := (s.session.readText (s.session.resolvePath file)).2 }

def textOf (s : State) (file : String) : Option String :=
  (s.session.readText (s.session.resolvePath file)).1

@[simp] theorem withOut_nil (s : State) : s.withOut [] = s := by
  simp [withOut]

@[simp] theorem withErr_nil (s : State) : s.withErr [] = s := by
  simp [withErr]

theorem withOut_withOut (s : State) (first more : List String) :
    (s.withOut first).withOut more = s.withOut (first ++ more) := by
  simp [withOut, asLines_append, String.append_assoc]

private theorem withErr_withErr (s : State) (first more : List String) :
    (s.withErr first).withErr more = s.withErr (first ++ more) := by
  simp [withErr, asLines_append, String.append_assoc]

@[simp] theorem output_withOut (s : State) (lines : List String) :
    (s.withOut lines).output = s.output := rfl

theorem out_withOut {s t : State} {above : List String} (h : t.out = s.out ++ asLines above)
    (lines : List String) : (t.withOut lines).out = s.out ++ asLines (above ++ lines) := by
  rw [asLines_append, ← String.append_assoc, ← h]
  rfl

theorem err_withErr {s t : State} {above : List String} (h : t.err = s.err ++ asLines above)
    (lines : List String) : (t.withErr lines).err = s.err ++ asLines (above ++ lines) := by
  rw [asLines_append, ← String.append_assoc, ← h]
  rfl

theorem foldl_withOut {α : Type} (line : Output → α → String) (xs : List α) (s : State) :
    xs.foldl (fun s x => s.withOut [line s.output x]) s = s.withOut (xs.map (line s.output)) := by
  induction xs generalizing s with
  | nil => simp
  | cons x xs ih =>
    rw [List.foldl_cons, ih, output_withOut, withOut_withOut]
    rfl

private theorem foldl_withErr (lines : List String) (s : State) :
    lines.foldl (fun s line => s.withErr [line]) s = s.withErr lines := by
  induction lines generalizing s with
  | nil => simp
  | cons line lines ih =>
    rw [List.foldl_cons, ih, withErr_withErr]
    rfl

end State

namespace Run

variable {α β : Type} {s s' : State} {x : α} {action : Run α}

def outcome (action : Run α) (s : State) : Except Stop α × State :=
  (ExceptT.run action).run s

theorem outcome_bind_ok (h : action.outcome s = (.ok x, s')) (next : α → Run β) :
    outcome (action >>= next) s = (next x).outcome s' := by
  simp only [outcome] at h ⊢
  rw [ExceptT.run_bind, StateT.run_bind, h]
  rfl

theorem outcome_forM {action : α → Run Unit} {step : State → α → State}
    (h : ∀ x s, (action x).outcome s = (.ok (), step s x)) (xs : List α) (s : State) :
    outcome (xs.forM action) s = (.ok (), xs.foldl step s) := by
  induction xs generalizing s with
  | nil => rfl
  | cons x xs ih => rw [List.forM, outcome_bind_ok (h x s), ih, List.foldl_cons]

theorem outcome_session (s : State) : outcome session s = (.ok s.session, s) := rfl

theorem outcome_setSession (t : Session) (s : State) :
    (setSession t).outcome s = (.ok (), { s with session := t }) := rfl

theorem outcome_print (line : String) (s : State) :
    (print line).outcome s = (.ok (), s.withOut [line]) := by
  have hout : s.out ++ line ++ "\n" = s.out ++ asLines [line] := by
    simp [String.append_assoc]
  simp only [State.withOut, ← hout]
  rfl

theorem outcome_printError (line : String) (s : State) :
    (printError line).outcome s = (.ok (), s.withErr [line]) := by
  have herr : s.err ++ line ++ "\n" = s.err ++ asLines [line] := by
    simp [String.append_assoc]
  simp only [State.withErr, ← herr]
  rfl

theorem outcome_colored (line color : String) (s : State) :
    (colored line color).outcome s = (.ok (colorize s.output line color), s) := rfl

theorem outcome_printColored (line color : String) (s : State) :
    (printColored line color).outcome s = (.ok (), s.withOut [colorize s.output line color]) := by
  rw [printColored, outcome_bind_ok (outcome_colored line color s), outcome_print]

theorem outcome_printErrorColored (line color : String) (s : State) :
    (printErrorColored line color).outcome s =
      (.ok (), s.withErr [colorize s.output line color]) := by
  rw [printErrorColored, outcome_bind_ok (outcome_colored line color s), outcome_printError]

theorem outcome_forM_print (lines : List String) (s : State) :
    outcome (lines.forM print) s = (.ok (), s.withOut lines) := by
  rw [outcome_forM outcome_print, State.foldl_withOut fun _ line => line, List.map_id']

theorem outcome_remark (remarks : List Remark) (s : State) :
    (remark remarks).outcome s = (.ok (), s.withErr (Remark.lines s.verbose remarks)) := by
  have hlines := outcome_forM outcome_printError (Remark.lines s.verbose remarks) s
  rw [State.foldl_withErr] at hlines
  exact hlines

def errorLine (o : Output) (message : String) : String :=
  colorize o ("  error: " ++ message) "red"

theorem outcome_fail (message : String) (s : State) :
    outcome (fail message : Run α) s =
      (.error (.exit 1), s.withErr [errorLine s.output message]) := by
  rw [fail, outcome_bind_ok (outcome_printErrorColored _ _ s)]
  rfl

theorem outcome_readSource {file source : String} (h : s.textOf file = some source) :
    (readSource file).outcome s = (.ok source, s.reading file) := by
  unfold State.textOf at h
  unfold readSource
  rw [outcome_bind_ok (outcome_session s)]
  dsimp only
  rw [outcome_bind_ok (outcome_setSession _ s), h]
  rfl

end Run

end ImportSurvey.CommandLine
