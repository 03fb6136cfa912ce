import ImportSurvey.CommandLine.Commands
import ImportSurvey.Proofs.CommandLine.Running
import ImportSurvey.Proofs.Survey.Accounts
/-!
# The fate of a file across commands

A check reads the constraint of a file first, to show it, and asks the file name afterwards; an analysis
asks the name first and reads the constraint only if the name allows the file. The two come to the same
verdict unless the name excludes the file and its constraint cannot be read. Listing the imports of a
file and surveying a project go by the analysis.
-/

namespace ImportSurvey

open Terminal Workspace

variable {source name : String} {tags : NameSet}

/-! ## Explanation and analysis -/

theorem FileReport.verdict_ofIncluded (source : String) :
    (ofIncluded source).verdict = .included := by
  unfold ofIncluded
  cases Source.head? source <;> rfl

theorem analyze_of_nameAllows_eq_false (h : Platform.nameAllows name tags = false)
    (source : String) : analyze source tags (some name) = .ok (.excluded .excludedByFileName) := by
  simp [analyze, h]

theorem verdict_analyze_of_nameAllows (h : Platform.nameAllows name tags = true)
    (source : String) :
    (analyze source tags (some name)).map (·.verdict) =
      (Explanation.ofSource source tags name).map (·.verdict) := by
  unfold analyze Constraint.evaluate Explanation.ofSource
  rw [Option.all_some, if_pos h]
  cases Constraint.ofSource source with
  | error e => rfl
  | ok constraint =>
    by_cases hholds : Constraint.holds tags constraint = true
    · simp [Except.map, Explanation.verdictOf, h, hholds, FileReport.verdict_ofIncluded]
    · simp [Except.map, Explanation.verdictOf, h, hholds, FileReport.excluded]

/-- The order in which name and constraint are asked makes no difference, unless the constraint cannot
be read and the name does not allow the file. -/
theorem verdict_analyze (h : Platform.nameAllows name tags = true ∨
    ∃ constraint, Constraint.ofSource source = .ok constraint) :
    (analyze source tags (some name)).map (·.verdict) =
      (Explanation.ofSource source tags name).map (·.verdict) := by
  by_cases hname : Platform.nameAllows name tags = true
  · exact verdict_analyze_of_nameAllows hname source
  · obtain ⟨constraint, hconstraint⟩ := h.resolve_left hname
    have hfalse := Bool.eq_false_iff.2 hname
    rw [analyze_of_nameAllows_eq_false hfalse, Explanation.ofSource, hconstraint]
    simp [Except.map, Explanation.verdictOf, hfalse, FileReport.excluded]

/-! ## Surveys -/

def Fate.ofAnalysis : Except Constraint.InvalidTerm FileReport → Fate
  | .error e => .invalid e
  | .ok report => if report.isIncluded then .included report else .excluded report.verdict

theorem Fate.ofText_some (tags : NameSet) (name source : String) :
    ofText tags name (some source) = ofAnalysis (analyze source tags (some name)) := by
  simp only [ofText]
  cases analyze source tags (some name) <;> rfl

section Surveys

variable {s s' : Session} {r : Request} {v : Survey} {f : SurveyedFile}

theorem fate_of_mem_surveyFiles {paths : List String} (h : f ∈ (surveyFiles tags s paths).1) :
    f.fate = Fate.ofText tags (fileNameOf f.path) f.text := by
  induction paths generalizing s with
  | nil =>
    rw [surveyFiles] at h
    contradiction
  | cons path paths ih =>
    rw [surveyFiles] at h
    rcases List.mem_cons.1 h with hfirst | hmore
    · rw [hfirst, surveyFile]
    · exact ih hmore

/-- In any survey a file that could be read has the fate that the analysis of its text leads to. -/
theorem fate_of_survey (h : survey s r = .ok (v, s')) (hmem : f ∈ v.files)
    (htext : f.text = some source) :
    f.fate = .ofAnalysis (analyze source r.tags (some (fileNameOf f.path))) := by
  obtain ⟨t, paths, rfl⟩ := exists_of_survey_eq_ok h
  rw [files_collect] at hmem
  rw [fate_of_mem_surveyFiles hmem, htext, Fate.ofText_some]

end Surveys

namespace CommandLine

open Run

/-! ## Checks -/

def verdictLine (o : Output) : Verdict → String
  | .included => colorize o "  included" "green"
  | .excludedByFileName =>
    colorize o "  excluded: file name targets another GOOS/GOARCH" "yellow"
  | .excludedByTags => colorize o "  excluded: build constraints not satisfied" "yellow"

def tagsLine (o : Output) (tags : NameSet) : String :=
  colorize o ("  tags: " ++ " ".intercalate tags.names) "dim"

def directiveLine (o : Output) (d : Source.Directive) : String :=
  colorize o ("  line " ++ toString d.line ++ ": " ++ Text.trimmed d.text) "dim"

theorem outcome_printVerdict (v : Verdict) (s : State) :
    (printVerdict v).outcome s = (.ok (), s.withOut [verdictLine s.output v]) := by
  cases v <;> exact outcome_printColored _ _ s

private theorem eq_of_verdictLine_suffix {o : Output} {v v' : Verdict}
    (h : (verdictLine o v).toList <:+ (verdictLine o v').toList) : v = v' := by
  by_contra hne
  revert h
  unfold verdictLine colorize
  -- the lines are known once it is known whether there is colour
  cases o.hasColor <;> cases v <;> cases v' <;> first | contradiction | decide +kernel

theorem outcome_forM_directives (ds : List Source.Directive) (s : State) :
    outcome (ds.forM fun d =>
      printColored ("  line " ++ toString d.line ++ ": " ++ Text.trimmed d.text) "dim") s =
      (.ok (), s.withOut (ds.map (directiveLine s.output))) := by
  rw [outcome_forM (fun d s => outcome_printColored _ "dim" s)]
  exact congrArg _ (State.foldl_withOut directiveLine ds s)

def State.checking (s : State) (file source : String) : State :=
  ((s.reading file).withOut ((Source.directives source).map (directiveLine s.output))).withErr
    (Remark.lines s.verbose (Survey.malformedRemarks source))

section Check

variable {s : State} {file : String} (h : s.textOf file = some source)

include h

theorem outcome_runCheck_of_ok {explanation : Explanation}
    (hexplain : Explanation.ofSource source tags (fileNameOf file) = .ok explanation) :
    (runCheck tags file).outcome s =
      (.ok (), (s.checking file source).withOut
        ["  constraint: " ++ explanation.constraintText,
          verdictLine s.output explanation.verdict, tagsLine s.output tags]) := by
  rw [runCheck, outcome_bind_ok (outcome_readSource h),
    outcome_bind_ok (outcome_forM_directives _ _), outcome_bind_ok (outcome_remark _ _), hexplain]
  dsimp only
  rw [outcome_bind_ok (outcome_print _ _), outcome_bind_ok (outcome_printVerdict _ _),
    outcome_printColored, State.withOut_withOut, State.withOut_withOut]
  rfl

theorem outcome_runCheck_of_error {e : Constraint.InvalidTerm}
    (hinvalid : Explanation.ofSource source tags (fileNameOf file) = .error e) :
    (runCheck tags file).outcome s =
      (.error (.exit 1), (s.checking file source).withErr
        [errorLine s.output (file ++ ": " ++ e.message)]) := by
  rw [runCheck, outcome_bind_ok (outcome_readSource h),
    outcome_bind_ok (outcome_forM_directives _ _), outcome_bind_ok (outcome_remark _ _), hinvalid]
  exact outcome_fail _ _

end Check

/-! ## Lists of imports -/

def excludedLine (o : Output) (file : String) (report : FileReport) : String :=
  colorize o ("  " ++ file ++ ": " ++ report.verdict.name) "yellow"

def State.listing (s : State) (tags : NameSet) (file source : String) : State :=
  (s.reading file).withErr
    (if Platform.nameAllows (fileNameOf file) tags then
      Remark.lines s.verbose (Survey.malformedRemarks source)
    else [])

/-- The state after a report was written for some reader. -/
def State.reporting (s : State) (file : String) (report : FileReport) (json : Bool) : State :=
  if json then s.withOut [(reportJson file report).linesText]
  else if report.isIncluded then s.withOut report.imports
  else s.withErr [excludedLine s.output file report]

theorem outcome_printReport (file : String) (report : FileReport) (s : State) :
    (printReport file report).outcome s = (.ok (), s.reporting file report false) := by
  rw [printReport, State.reporting, if_neg Bool.false_ne_true]
  by_cases hincluded : report.isIncluded = true
  · rw [if_pos hincluded, if_pos hincluded, outcome_forM_print]
  · rw [if_neg hincluded, if_neg hincluded, outcome_printErrorColored, excludedLine]

/-- Remarks are made on a file that its name allows, and what comes next comes in any case. -/
theorem outcome_listing (tags : NameSet) (file source : String) (next : Run Unit) (s : State) :
    outcome (if Platform.nameAllows (fileNameOf file) tags then do
        remark (Survey.malformedRemarks source)
        next
      else next) (s.reading file) = next.outcome (s.listing tags file source) := by
  rw [State.listing]
  by_cases hname : Platform.nameAllows (fileNameOf file) tags = true
  · rw [if_pos hname, if_pos hname]
    exact outcome_bind_ok (outcome_remark _ _) _
  · rw [if_neg hname, if_neg hname, State.withErr_nil]

section Imports

variable {s : State} {file : String} (h : s.textOf file = some source)

include h

theorem outcome_runImports_of_ok {report : FileReport}
    (hreport : analyze source tags (some (fileNameOf file)) = .ok report) (json : Bool) :
    (runImports tags file json).outcome s =
      (.ok (), (s.listing tags file source).reporting file report json) := by
  rw [runImports, outcome_bind_ok (outcome_readSource h)]
  dsimp only
  rw [outcome_listing, hreport]
  cases json with
  | false => exact outcome_printReport file report _
  | true => exact outcome_print _ _

theorem outcome_runImports_of_error {e : Constraint.InvalidTerm}
    (hinvalid : analyze source tags (some (fileNameOf file)) = .error e) (json : Bool) :
    (runImports tags file json).outcome s =
      (.error (.exit 1), (s.listing tags file source).withErr
        [errorLine s.output (file ++ ": " ++ e.message)]) := by
  rw [runImports, outcome_bind_ok (outcome_readSource h)]
  dsimp only
  rw [outcome_listing, hinvalid]
  exact outcome_fail _ _

end Imports

/-! ## What runs say -/

def Refuses (s : State) (file : String) (e : Constraint.InvalidTerm)
    (run : Except Stop Unit × State) : Prop :=
  run.1 = .error (.exit 1) ∧ ∃ above, run.2.err =
    s.err ++ asLines (above ++ [errorLine s.output (file ++ ": " ++ e.message)])

def ShowsVerdict (s : State) (tags : NameSet) (v : Verdict) (run : Except Stop Unit × State) :
    Prop :=
  run.1 = .ok () ∧ ∃ above, run.2.out =
    s.out ++ asLines (above ++ [verdictLine s.output v, tagsLine s.output tags])

/-- A run fails where, and only where, no decision on the file is made. -/
structure FailsWith {α : Type} (s : State) (file : String)
    (decided : Except Constraint.InvalidTerm α) (run : Except Stop Unit × State) : Prop where
  failed : run.1 = .error (.exit 1) ↔ ∃ e, decided = .error e
  refusal : ∀ e, decided = .error e → Refuses s file e run

structure Tells (s : State) (tags : NameSet) (file : String)
    (decided : Except Constraint.InvalidTerm Verdict) (run : Except Stop Unit × State) : Prop
    extends FailsWith s file decided run where
  verdict : ∀ v, ShowsVerdict s tags v run ↔ decided = .ok v

/-- A listing reports what was found out about a file: as JSON with the name of the verdict, or else
as the imports of a file that is part of the build and as a line with the verdict on any other. -/
structure Reports (s : State) (file : String) (json : Bool)
    (analysis : Except Constraint.InvalidTerm FileReport) (run : Except Stop Unit × State) : Prop
    extends FailsWith s file analysis run where
  object : json = true → ∀ report, analysis = .ok report → run.1 = .ok () ∧
    run.2.out = s.out ++ asLines [(reportJson file report).linesText]
  included : json = false → ∀ report, analysis = .ok report → report.isIncluded = true →
    run.1 = .ok () ∧ run.2.out = s.out ++ asLines report.imports
  excluded : json = false → ∀ report, analysis = .ok report → report.isIncluded = false →
    run.1 = .ok () ∧ run.2.out = s.out ∧
      ∃ above, run.2.err = s.err ++ asLines (above ++ [excludedLine s.output file report])

section Ends

variable {α : Type} {s t : State} {file : String} {e : Constraint.InvalidTerm}
  {run : Except Stop Unit × State}

theorem refuses_withErr {above : List String} (herr : t.err = s.err ++ asLines above) :
    Refuses s file e
      (.error (.exit 1), t.withErr [errorLine s.output (file ++ ": " ++ e.message)]) :=
  ⟨rfl, above, State.err_withErr herr _⟩

theorem Refuses.failsWith (h : Refuses s file e run) :
    FailsWith s file (.error e : Except Constraint.InvalidTerm α) run where
  failed := ⟨fun _ => ⟨e, rfl⟩, fun _ => h.1⟩
  refusal _ he := Except.error.inj he ▸ h

theorem failsWith_of_ok (h : run.1 = .ok ()) (x : α) : FailsWith s file (.ok x) run where
  failed := by simp [h]
  refusal e he := nomatch he

private theorem asLines_append_pair (above : List String) (line last : String) :
    asLines (above ++ [line, last]) = asLines above ++ line ++ ("\n" ++ last ++ "\n") := by
  simp [asLines_append, String.append_assoc]

theorem ShowsVerdict.unique {v v' : Verdict} (h : ShowsVerdict s tags v run)
    (h' : ShowsVerdict s tags v' run) : v = v' := by
  obtain ⟨-, above, hout⟩ := h
  obtain ⟨-, above', hout'⟩ := h'
  rw [hout, String.append_right_inj, asLines_append_pair, asLines_append_pair,
    String.append_left_inj] at hout'
  have hlists := congrArg String.toList hout'
  rw [String.toList_append, String.toList_append] at hlists
  have hsuffix : (verdictLine s.output v).toList <:+
      (asLines above').toList ++ (verdictLine s.output v').toList := hlists ▸ List.suffix_append _ _
  rcases List.suffix_or_suffix_of_suffix hsuffix (List.suffix_append _ _) with h | h
  · exact eq_of_verdictLine_suffix h
  · exact (eq_of_verdictLine_suffix h).symm

end Ends

section Runs

variable {s : State} {file : String} (h : s.textOf file = some source)

include h

theorem tells_runCheck (tags : NameSet) :
    Tells s tags file ((Explanation.ofSource source tags (fileNameOf file)).map (·.verdict))
      ((runCheck tags file).outcome s) := by
  cases hexplain : Explanation.ofSource source tags (fileNameOf file) with
  | error e =>
    have hrefuses : Refuses s file e ((runCheck tags file).outcome s) := by
      rw [outcome_runCheck_of_error h hexplain]
      exact refuses_withErr rfl
    refine ⟨hrefuses.failsWith, fun v => ?_⟩
    constructor
    · intro hshows
      exact nomatch hrefuses.1.symm.trans hshows.1
    · intro hok
      exact nomatch hok
  | ok explanation =>
    have hshows : ShowsVerdict s tags explanation.verdict ((runCheck tags file).outcome s) := by
      rw [outcome_runCheck_of_ok h hexplain]
      refine ⟨rfl, (Source.directives source).map (directiveLine s.output) ++
        ["  constraint: " ++ explanation.constraintText], ?_⟩
      rw [List.append_assoc]
      exact State.out_withOut rfl _
    refine ⟨failsWith_of_ok hshows.1 _, fun v => ?_⟩
    constructor
    · intro hv
      rw [hv.unique hshows]
      rfl
    · intro hv
      rw [← Except.ok.inj hv]
      exact hshows

theorem reports_runImports (tags : NameSet) (json : Bool) :
    Reports s file json (analyze source tags (some (fileNameOf file)))
      ((runImports tags file json).outcome s) := by
  cases hanalysis : analyze source tags (some (fileNameOf file)) with
  | error e =>
    have hrefuses : Refuses s file e ((runImports tags file json).outcome s) := by
      rw [outcome_runImports_of_error h hanalysis]
      exact refuses_withErr rfl
    exact ⟨hrefuses.failsWith, nofun, nofun, nofun⟩
  | ok report =>
    rw [outcome_runImports_of_ok h hanalysis]
    refine ⟨failsWith_of_ok rfl report, ?_, ?_, ?_⟩
    · rintro rfl _ ⟨⟩
      exact ⟨rfl, rfl⟩
    · rintro rfl _ ⟨⟩ hincluded
      rw [State.reporting, if_neg Bool.false_ne_true, if_pos hincluded]
      exact ⟨rfl, rfl⟩
    · rintro rfl _ ⟨⟩ hexcluded
      rw [State.reporting, if_neg Bool.false_ne_true, if_neg (Bool.eq_false_iff.1 hexcluded)]
      exact ⟨rfl, rfl, _, State.err_withErr rfl _⟩

end Runs

/-! ## Agreement -/

/-- What the commands say of a file follows from one analysis of its text, its name and the tags. -/
structure FatesAgree (s : State) (tags : NameSet) (file source : String) : Prop where
  checked : (Platform.nameAllows (fileNameOf file) tags = true ∨
      ∃ constraint, Constraint.ofSource source = .ok constraint) →
    Tells s tags file ((analyze source tags (some (fileNameOf file))).map (·.verdict))
      ((runCheck tags file).outcome s)
  /-- A check refuses an invalid constraint also where the name has decided already. -/
  refused : Platform.nameAllows (fileNameOf file) tags = false →
    ∀ e, Constraint.ofSource source = .error e →
      Refuses s file e ((runCheck tags file).outcome s) ∧
      analyze source tags (some (fileNameOf file)) = .ok (.excluded .excludedByFileName)
  listed : ∀ json, Reports s file json (analyze source tags (some (fileNameOf file)))
    ((runImports tags file json).outcome s)
  /-- In any survey in which the text is met again under the same file name. -/
  surveyed : ∀ t r v t', survey t r = .ok (v, t') → r.tags = tags →
    ∀ f ∈ v.files, f.text = some source → fileNameOf f.path = fileNameOf file →
      f.fate = .ofAnalysis (analyze source tags (some (fileNameOf file)))
  /-- A project that holds the text under the same file name can be surveyed. -/
  found : ∀ t r, t.UpToDate → 0 < t.scope.searches.capacity → r.InProject t → r.tags = tags →
    ∃ v t', survey t r = .ok (v, t') ∧
      ∀ f, r.Finds t f → f.text = some source → f.name = fileNameOf file →
        v.Lists (r.pathOf t f) (some (analyze source tags (some (fileNameOf file))))

/-- The commands agree on the fate of every file that can be read, except that a check does not come
to the verdict that the name excludes a file if the constraint of that file is invalid. -/
theorem fates_agree {s : State} {file : String} (h : s.textOf file = some source)
    (tags : NameSet) : FatesAgree s tags file source := by
  have htells := tells_runCheck h tags
  constructor
  case checked =>
    intro hread
    rw [verdict_analyze hread]
    exact htells
  case refused =>
    intro hname e hinvalid
    refine ⟨htells.refusal e ?_, analyze_of_nameAllows_eq_false hname source⟩
    rw [Explanation.ofSource, hinvalid]
    rfl
  case listed => exact reports_runImports h tags
  case surveyed =>
    intro t r v t' hsurvey htags f hmem htext hname
    have hfate := fate_of_survey hsurvey hmem htext
    rw [htags, hname] at hfate
    exact hfate
  case found =>
    intro t r ht hcapacity hr htags
    obtain ⟨t', hsurvey, -⟩ := exists_survey_eq ht hcapacity r
    refine ⟨_, t', hsurvey, ?_⟩
    intro f hfound htext hname
    have hanalysis : analysisOf r.tags f =
        some (analyze source tags (some (fileNameOf file))) := by
      rw [analysisOf, htext, htags, hname]
      rfl
    rw [← hanalysis]
    exact (accounts_collect hr).lists f hfound

def stateIn (project : Directory) : State :=
  { session := sessionIn project, output := {}, verbose := false }

/-- A check and a listing refuse a file whose name says nothing and whose constraint is invalid. -/
theorem fates_agree_mixedFates :
    (stateIn mixedFates).textOf "b.go" = some "// +build !!x\n\npackage a\n" ∧
      FatesAgree (stateIn mixedFates) (.ofList ["linux"]) "b.go" "// +build !!x\n\npackage a\n" ∧
      Refuses (stateIn mixedFates) "b.go" ⟨"!!x", some 1⟩
        ((runCheck (.ofList ["linux"]) "b.go").outcome (stateIn mixedFates)) ∧
      Refuses (stateIn mixedFates) "b.go" ⟨"!!x", some 1⟩
        ((runImports (.ofList ["linux"]) "b.go" false).outcome (stateIn mixedFates)) := by
  have htext : (stateIn mixedFates).textOf "b.go" = some "// +build !!x\n\npackage a\n" := by
    decide +kernel
  have hagree := fates_agree htext (.ofList ["linux"])
  have hname : Platform.nameAllows (fileNameOf "b.go") (.ofList ["linux"]) = true := by
    decide +kernel
  have hinvalid : analyze "// +build !!x\n\npackage a\n" (.ofList ["linux"])
      (some (fileNameOf "b.go")) = .error ⟨"!!x", some 1⟩ := by
    decide +kernel
  have hchecked := (hagree.checked (.inl hname)).refusal ⟨"!!x", some 1⟩
    (by rw [hinvalid]; rfl)
  exact ⟨htext, hagree, hchecked, (hagree.listed false).refusal _ hinvalid⟩

def invalidForWindows : Directory :=
  sourceFile "x_windows.go" "// +build !!x\npackage p\n" .empty

/-- A check refuses a file that the analysis excludes by its name. -/
theorem not_tells_invalidForWindows :
    (stateIn invalidForWindows).textOf "x_windows.go" = some "// +build !!x\npackage p\n" ∧
      analyze "// +build !!x\npackage p\n" (.ofList ["linux"]) (some "x_windows.go") =
        .ok (.excluded .excludedByFileName) ∧
      Refuses (stateIn invalidForWindows) "x_windows.go" ⟨"!!x", some 1⟩
        ((runCheck (.ofList ["linux"]) "x_windows.go").outcome (stateIn invalidForWindows)) ∧
      ¬Tells (stateIn invalidForWindows) (.ofList ["linux"]) "x_windows.go"
        ((analyze "// +build !!x\npackage p\n" (.ofList ["linux"])
          (some "x_windows.go")).map (·.verdict))
        ((runCheck (.ofList ["linux"]) "x_windows.go").outcome (stateIn invalidForWindows)) := by
  have htext : (stateIn invalidForWindows).textOf "x_windows.go" =
      some "// +build !!x\npackage p\n" := by
    decide +kernel
  have hanalysis : analyze "// +build !!x\npackage p\n" (.ofList ["linux"])
      (some "x_windows.go") = .ok (.excluded .excludedByFileName) := by
    decide +kernel
  have hinvalid : (Explanation.ofSource "// +build !!x\npackage p\n" (.ofList ["linux"])
      (fileNameOf "x_windows.go")).map (·.verdict) = .error ⟨"!!x", some 1⟩ := by
    decide +kernel
  have hrefuses := (tells_runCheck htext (.ofList ["linux"])).refusal _ hinvalid
  refine ⟨htext, hanalysis, hrefuses, fun htells => ?_⟩
  rw [hanalysis] at htells
  exact nomatch hrefuses.1.symm.trans ((htells.verdict .excludedByFileName).2 rfl).1

end CommandLine

end ImportSurvey
