import ImportSurvey.Proofs.Survey.Collected
import ImportSurvey.Proofs.Workspace.Remembered
/-!
# Surveys of what is there

In a session that remembers nothing false a survey is made, and made of the files that a search finds
at that moment, each with its text as it is.
-/

namespace ImportSurvey

open Workspace Text

variable {s : Session}

def surveyed (tags : NameSet) (s : Session) (path : String) : SurveyedFile :=
  let text := s.textNow (s.root.join (Path.parse path)).text
  ⟨path, text, Fate.ofText tags (fileNameOf path) text⟩

theorem surveyFile_eq (h : s.UpToDate) (tags : NameSet) (path : String) :
    (surveyFile tags s path).1 = surveyed tags s path ∧ (surveyFile tags s path).2.UpToDate := by
  refine ⟨?_, h.readText_snd _⟩
  rw [surveyFile, h.readText_fst, surveyed]

theorem surveyFiles_eq (h : s.UpToDate) (tags : NameSet) (paths : List String) :
    (surveyFiles tags s paths).1 = paths.map (surveyed tags s) ∧
      (surveyFiles tags s paths).2.UpToDate := by
  induction paths generalizing s with
  | nil => exact ⟨rfl, h⟩
  | cons path paths ih =>
    obtain ⟨hfirst, hnext⟩ := surveyFile_eq h tags path
    -- reading changes nothing but the remembered texts
    have hsame : surveyed tags (surveyFile tags s path).2 = surveyed tags s := rfl
    obtain ⟨hmore, hlast⟩ := ih hnext
    refine ⟨?_, hlast⟩
    rw [surveyFiles, List.map_cons, hfirst, hmore, hsame]

def Request.found (r : Request) (s : Session) : List String :=
  s.searchNow (r.root s).text r.tests

def Request.filesNow (r : Request) (s : Session) : List SurveyedFile :=
  (r.found s).map (surveyed r.tags s)

theorem exists_survey_eq (h : s.UpToDate) (hcapacity : 0 < s.scope.searches.capacity)
    (r : Request) : ∃ s', survey s r = .ok (r.collect s (r.filesNow s), s') ∧ s'.UpToDate := by
  obtain ⟨searches, hsearch, hfound⟩ := h.search_eq hcapacity (r.root s).text r.tests
  obtain ⟨hfiles, hlast⟩ := surveyFiles_eq hfound r.tags
    (s.searchNow (r.root s).text r.tests)
  refine ⟨_, ?_, hlast⟩
  rw [survey_eq, hsearch, Request.filesNow, Request.found]
  simp only [Except.map, hfiles]
  rfl

/-! ## Small projects -/

def sessionIn (project : Directory) : Session :=
  .start (.sub "p" project .empty) ["p"] none 1

def sourceFile (name text : String) (rest : Directory) : Directory :=
  .file name (some (encode text.toList)) rest

theorem upToDate_sessionIn (project : Directory) : (sessionIn project).UpToDate :=
  Session.upToDate_start _ _ _ _

end ImportSurvey
