import ImportSurvey.Proofs.Survey.Reading
import ImportSurvey.Proofs.Workspace.Discovery
import ImportSurvey.Proofs.Workspace.Ways
/-!
# The files that a request finds

A request may name any directory of the tree, below the project's root, beside it or above. Files are
found by paths from the root, and such a path leads back to the file, so what is surveyed under it is
the file's own text with its own name. The key of a package is made of two such paths, and both are
followed from the working directory instead of the root: so it is the way to the file's directory
from the surveyed one where the working directory can stand in for the root, as it can for every
request within the project.
-/

namespace ImportSurvey

open Workspace Text

variable {s : Session} {r : Request} {d : Directory} {f f' : TreeFile} {g : SurveyedFile}
  {path part name : String} {more : List String}

namespace Workspace

def TreeFile.text (f : TreeFile) : Option String :=
  f.content.map fun bytes => String.ofList (foldLineEnds (decodeLossy bytes))

theorem text?_of_lookup? {top : Directory} {p : Path} {content : Content}
    (h : top.lookup? [] p.parts = some (.file content)) :
    top.text? p = content.map fun bytes => String.ofList (foldLineEnds (decodeLossy bytes)) := by
  rw [Directory.text?, Directory.bytes?, Directory.find?, h]

def Session.rootAt (s : Session) : Location :=
  s.root.location []

theorem Session.rootAt_eq_parts (h : ∀ part ∈ s.root.parts, part ≠ "..") :
    s.rootAt = s.root.parts := by
  rw [Session.rootAt, Path.location, ite_self, foldl_step h, List.nil_append]

/-- A session whose root is an absolute path, of such parts as parsing keeps. -/
structure Session.IsRooted (s : Session) : Prop where
  isAbsolute : s.root.isAbsolute = true
  isPart : ∀ part ∈ s.root.parts, IsPart part

end Workspace

def Request.rootAt (r : Request) (s : Session) : Location :=
  (r.root s).location []

def Request.pathOf (r : Request) (s : Session) (f : TreeFile) : String :=
  Workspace.pathOf (s.root.location s.home) ((r.root s).location []) f

def Request.Finds (r : Request) (s : Session) (f : TreeFile) : Prop :=
  ∃ d, s.tree.directory? (r.root s) = some d ∧ f ∈ d.files ∧ r.pathOf s f ∈ r.found s

def Request.keyOf (r : Request) (s : Session) (f : TreeFile) : String :=
  packageKey s.home (s.rel (r.root s).text) (r.pathOf s f)

/-! ## Roots -/

namespace Workspace.Session.IsRooted

variable (h : s.IsRooted)

include h

theorem location_root (home : Location) : s.root.location home = s.rootAt :=
  location_of_isAbsolute h.isAbsolute home

theorem pathOf_eq_relativeText (r : Request) (f : TreeFile) :
    r.pathOf s f = relativeText s.rootAt (r.rootAt s ++ f.way) := by
  rw [Request.pathOf, h.location_root]
  rfl

theorem isAbsolute_root (r : Request) : (r.root s).isAbsolute = true := by
  rw [Request.root, Session.inProject, Path.join]
  by_cases hpath : (Path.parse r.path).isAbsolute = true
  · rwa [if_pos hpath]
  · rw [if_neg hpath]
    exact h.isAbsolute

theorem isPart_of_mem_root (hpart : part ∈ (r.root s).parts) : IsPart part := by
  rw [Request.root, Session.inProject, Path.join] at hpart
  by_cases hpath : (Path.parse r.path).isAbsolute = true
  · rw [if_pos hpath] at hpart
    exact isPart_of_mem_parse hpart
  · rw [if_neg hpath] at hpart
    rcases List.mem_append.1 hpart with hpart | hpart
    · exact h.isPart part hpart
    · exact isPart_of_mem_parse hpart

theorem parse_text_root (r : Request) : Path.parse (r.root s).text = r.root s :=
  parse_text fun _ => h.isPart_of_mem_root

theorem isPart_of_mem_rootAt (hname : name ∈ r.rootAt s) : IsPart name ∧ name ≠ ".." := by
  obtain ⟨hpart, hup⟩ := mem_location hname
  exact ⟨h.isPart_of_mem_root hpart, hup⟩

theorem found_eq (r : Request) :
    r.found s = goFiles s.tree ⟨s.rootAt, r.tests, s.scope.exclusions⟩ (r.root s) := by
  rw [Request.found, Session.searchNow, h.location_root, h.parse_text_root, Session.inProject, Path.join,
    if_pos (h.isAbsolute_root r)]

theorem exists_of_mem_found (hpath : path ∈ r.found s) : ∃ f, r.Finds s f ∧ r.pathOf s f = path := by
  have hmem := hpath
  rw [h.found_eq] at hmem
  obtain ⟨d, f, hd, hf, hpathOf⟩ := exists_file_of_mem hmem
  have heq : r.pathOf s f = path := (h.pathOf_eq_relativeText r f).trans hpathOf
  exact ⟨f, ⟨d, hd, hf, heq ▸ hpath⟩, heq⟩

end Workspace.Session.IsRooted

/-! ## Where files are -/

/-- A request names a directory, in a project with a root, where files have proper names and no
backslash stands on the way from the root. -/
structure Request.Reaches (r : Request) (s : Session) (d : Directory) : Prop where
  isRooted : s.IsRooted
  exists_project : ∃ project, s.tree.directory? s.root = some project
  directory : s.tree.directory? (r.root s) = some d
  proper : d.Proper
  plain : ∀ part ∈ wayTo s.rootAt (r.rootAt s), '\\' ∉ part.toList

/-- If a request names a directory at all, it reaches its files. -/
structure Request.InTree (r : Request) (s : Session) : Prop where
  isRooted : s.IsRooted
  reaches : ∀ d, s.tree.directory? (r.root s) = some d → r.Reaches s d

theorem Request.inTree_of_proper (r : Request) (hs : s.IsRooted) (htree : s.tree.Proper)
    (hproject : ∃ project, s.tree.directory? s.root = some project) : r.InTree s := by
  refine ⟨hs, fun d hd => ?_⟩
  obtain ⟨above, htrail, -⟩ := exists_trail hd
  obtain ⟨hproper, hnames⟩ := htrail.proper htree
  refine ⟨hs, hproject, hd, hproper, fun part hpart => ?_⟩
  rcases mem_wayTo hpart with rfl | hmem
  · decide
  · exact (hnames part hmem).backslash_not_mem

namespace Request.Reaches

theorem way_isName (h : r.Reaches s d) (hf : f ∈ d.files) : ∀ n ∈ f.way, IsName n :=
  fun _ => Directory.isName_of_mem_way h.proper hf

theorem dirs_isName (h : r.Reaches s d) (hf : f ∈ d.files) : ∀ n ∈ f.dirs, IsName n := by
  intro n hn
  exact h.way_isName hf n (List.mem_append_left [f.name] hn)

theorem up_not_mem_dirs (h : r.Reaches s d) (hf : f ∈ d.files) : ".." ∉ f.dirs := by
  intro hup
  exact (h.dirs_isName hf ".." hup).ne_up rfl

theorem isPart_of_mem_dirs (h : r.Reaches s d) (hf : f ∈ d.files) : ∀ n ∈ f.dirs, IsPart n :=
  fun n hn => (h.dirs_isName hf n hn).toIsPart

theorem isPart_of_mem_wayTo (h : r.Reaches s d) (hmore : ∀ n ∈ more, IsName n)
    (hpart : part ∈ wayTo s.rootAt (r.rootAt s ++ more)) : IsPart part ∧ '\\' ∉ part.toList := by
  rcases mem_wayTo_append hpart with rfl | hway | hmem
  · decide
  · refine ⟨?_, h.plain part hway⟩
    rcases mem_wayTo hway with rfl | hname
    · decide
    · exact (h.isRooted.isPart_of_mem_rootAt hname).1
  · exact ⟨(hmore part hmem).toIsPart, (hmore part hmem).backslash_not_mem⟩

theorem isPart_of_mem_way (h : r.Reaches s d) (hpart : part ∈ wayTo s.rootAt (r.rootAt s)) :
    IsPart part ∧ '\\' ∉ part.toList := by
  rw [← List.append_nil (r.rootAt s)] at hpart
  exact h.isPart_of_mem_wayTo (fun n hn => absurd hn List.not_mem_nil) hpart

/-- The way to the root leads through directories and not through a file. -/
theorem not_prefix (h : r.Reaches s d) (hf : f ∈ d.files) :
    ¬ r.rootAt s ++ f.way <+: s.rootAt := by
  rintro ⟨rest, hrest⟩
  obtain ⟨project, hproject⟩ := h.exists_project
  obtain ⟨_, hroot, -⟩ := exists_trail hproject
  obtain ⟨_, htrail, -⟩ := exists_trail h.directory
  rw [← Session.rootAt, ← hrest] at hroot
  obtain ⟨mid, _, _, hmid, -⟩ := hroot.split
  have hdirectory := hmid.lookup?_append []
  rw [List.append_nil, Request.rootAt, htrail.lookup?_append,
    Directory.lookup?_way h.proper hf] at hdirectory
  cases Option.some.inj hdirectory

theorem startsAt (h : r.Reaches s d) (habove : r.rootAt s <+: s.rootAt → r.rootAt s = s.rootAt) :
    StartsAt s.rootAt (r.rootAt s) :=
  ⟨habove, fun _ => h.isPart_of_mem_way⟩

theorem wayTo_file (h : r.Reaches s d) (hf : f ∈ d.files) :
    wayTo s.rootAt (r.rootAt s ++ f.way) = wayTo s.rootAt (r.rootAt s ++ f.dirs) ++ [f.name] := by
  have hnot := h.not_prefix hf
  rw [TreeFile.way, ← List.append_assoc] at hnot ⊢
  exact wayTo_concat hnot

theorem pathOf_eq (h : r.Reaches s d) (hf : f ∈ d.files) :
    r.pathOf s f = joinElements (wayTo s.rootAt (r.rootAt s ++ f.way)) := by
  have hne : wayTo s.rootAt (r.rootAt s ++ f.way) ≠ [] := by simp [h.wayTo_file hf]
  rw [h.isRooted.pathOf_eq_relativeText, relativeText, ← wayText_of_ne_nil hne]
  apply forwardSlashes_wayText
  intro part hpart
  exact (h.isPart_of_mem_wayTo (h.way_isName hf) hpart).2

theorem elements_pathOf (h : r.Reaches s d) (hf : f ∈ d.files) :
    elements (r.pathOf s f) = wayTo s.rootAt (r.rootAt s ++ f.dirs) ++ [f.name] := by
  rw [h.pathOf_eq hf, ← h.wayTo_file hf]
  apply elements_joinElements
  · simp [h.wayTo_file hf]
  · intro part hpart
    exact (h.isPart_of_mem_wayTo (h.way_isName hf) hpart).1.slash_not_mem

theorem fileNameOf_pathOf (h : r.Reaches s d) (hf : f ∈ d.files) :
    fileNameOf (r.pathOf s f) = f.name := by
  rw [fileNameOf, h.elements_pathOf hf]
  simp

theorem directoryOf_pathOf (h : r.Reaches s d) (hf : f ∈ d.files) :
    directoryOf (r.pathOf s f) = ⟨.none, wayTo s.rootAt (r.rootAt s ++ f.dirs)⟩ := by
  rw [directoryOf, h.elements_pathOf hf, List.dropLast_concat]
  exact parse_joinElements fun part hpart => (h.isPart_of_mem_wayTo (h.dirs_isName hf) hpart).1

theorem textNow_pathOf (h : r.Reaches s d) (hf : f ∈ d.files) :
    s.textNow (s.root.join (Path.parse (r.pathOf s f))).text = f.text := by
  have hway : ∀ part ∈ wayTo s.rootAt (r.rootAt s ++ f.way), IsPart part := fun part hpart =>
    (h.isPart_of_mem_wayTo (h.way_isName hf) hpart).1
  have hjoin : s.root.join (Path.parse (r.pathOf s f)) =
      ⟨s.root.anchor, s.root.parts ++ wayTo s.rootAt (r.rootAt s ++ f.way)⟩ := by
    rw [h.pathOf_eq hf, parse_joinElements hway]
    rfl
  have hparts : ∀ part ∈ s.root.parts ++ wayTo s.rootAt (r.rootAt s ++ f.way), IsPart part := by
    intro part hpart
    rcases List.mem_append.1 hpart with hpart | hpart
    · exact h.isRooted.isPart part hpart
    · exact hway part hpart
  have habsolute : (Workspace.Path.mk s.root.anchor
      (s.root.parts ++ wayTo s.rootAt (r.rootAt s ++ f.way))).isAbsolute = true := h.isRooted.isAbsolute
  rw [hjoin, Session.textNow, parse_text hparts, Session.absolute, Path.join, if_pos habsolute,
    TreeFile.text]
  apply text?_of_lookup?
  -- from the root the way leads to the surveyed directory, and in it to the file
  obtain ⟨project, hproject⟩ := h.exists_project
  obtain ⟨_, hroot, hlookup⟩ := exists_trail hproject
  obtain ⟨_, htrail, -⟩ := exists_trail h.directory
  rw [hlookup, Session.rootAt, hroot.lookup?_wayTo, Request.rootAt, htrail.lookup?_append,
    Directory.lookup?_way h.proper hf]

theorem surveyed_pathOf (h : r.Reaches s d) (hf : f ∈ d.files) :
    surveyed r.tags s (r.pathOf s f) = ⟨r.pathOf s f, f.text, Fate.ofText r.tags f.name f.text⟩ := by
  rw [surveyed, h.textNow_pathOf hf, h.fileNameOf_pathOf hf]

theorem rel_root (h : r.Reaches s d) : s.rel (r.root s).text = wayText (wayTo s.rootAt (r.rootAt s)) := by
  have hlocation : (r.root s).location s.home = r.rootAt s :=
    location_of_isAbsolute (h.isRooted.isAbsolute_root r) s.home
  rw [Session.rel, h.isRooted.parse_text_root, hlocation]
  by_cases hpre : s.root.parts.isPrefixOf (r.rootAt s) = true
  · obtain ⟨rest, hrest⟩ := List.isPrefixOf_iff_prefix.1 hpre
    have hroot : s.rootAt = s.root.parts := by
      apply Session.rootAt_eq_parts
      intro part hpart
      exact (h.isRooted.isPart_of_mem_rootAt (hrest ▸ List.mem_append_left rest hpart)).2
    have hway : wayTo s.rootAt (r.rootAt s) = rest := by
      rw [hroot, ← hrest, wayTo_self_append]
    rw [if_pos hpre, hway, ← hrest, List.drop_left]
    exact forwardSlashes_wayText (hway ▸ h.plain)
  · rw [if_neg hpre, h.isRooted.location_root, relativeText]
    exact forwardSlashes_wayText h.plain

/-! ## Keys -/

/-- The key of a package: both directories are sought from the working directory. -/
theorem keyOf_eq (h : r.Reaches s d) (hf : f ∈ d.files) :
    r.keyOf s f = wayText (wayTo ((wayTo s.rootAt (r.rootAt s)).foldl Path.step s.home)
      ((wayTo s.rootAt (r.rootAt s ++ f.dirs)).foldl Path.step s.home)) := by
  rw [Request.keyOf, packageKey, h.rel_root,
    parse_wayText fun part hpart => (h.isPart_of_mem_way hpart).1, h.directoryOf_pathOf hf]
  rfl

/-- The key is the way from the surveyed directory if the working directory can stand in for the
project's root. -/
theorem keyOf_of_standsIn (h : r.Reaches s d) (hf : f ∈ d.files)
    (hstands : StandsIn s.home (r.rootAt s) s.rootAt f.dirs) : r.keyOf s f = wayText f.dirs := by
  rw [h.keyOf_eq hf, (foldl_step_wayTo_append_iff (h.up_not_mem_dirs hf)).2 hstands, wayTo_self_append]

/-- And in a working directory with a proper location only then. -/
theorem keyOf_eq_iff (h : r.Reaches s d) (hf : f ∈ d.files)
    (hhome : ∀ n ∈ s.home, IsPart n ∧ n ≠ "..") :
    r.keyOf s f = wayText f.dirs ↔ StandsIn s.home (r.rootAt s) s.rootAt f.dirs := by
  refine ⟨fun hkey => ?_, h.keyOf_of_standsIn hf⟩
  have hstop : ∀ n ∈ (wayTo s.rootAt (r.rootAt s ++ f.dirs)).foldl Path.step s.home,
      IsPart n ∧ n ≠ ".." := by
    intro n hn
    rcases mem_foldl_step hn with hn | ⟨hn, hup⟩
    · exact hhome n hn
    · exact ⟨(h.isPart_of_mem_wayTo (h.dirs_isName hf) hn).1, hup⟩
  have hup : ".." ∉ (wayTo s.rootAt (r.rootAt s ++ f.dirs)).foldl Path.step s.home :=
    fun hmem => (hstop ".." hmem).2 rfl
  have hway : ∀ part ∈ wayTo ((wayTo s.rootAt (r.rootAt s)).foldl Path.step s.home)
      ((wayTo s.rootAt (r.rootAt s ++ f.dirs)).foldl Path.step s.home), IsPart part := by
    intro part hpart
    rcases mem_wayTo hpart with rfl | hmem
    · decide
    · exact (hstop part hmem).1
  rw [h.keyOf_eq hf, wayText_inj hway (h.isPart_of_mem_dirs hf),
    wayTo_eq_iff hup (h.up_not_mem_dirs hf)] at hkey
  exact (foldl_step_wayTo_append_iff (h.up_not_mem_dirs hf)).1 hkey

end Request.Reaches

/-! ## What is surveyed -/

namespace Request.InTree

theorem exists_reaches (h : r.InTree s) (hf : r.Finds s f) : ∃ d, r.Reaches s d ∧ f ∈ d.files := by
  obtain ⟨d, hd, hmem, -⟩ := hf
  exact ⟨d, h.reaches d hd, hmem⟩

/-- The surveyed files are those found, with their own texts and the fates of these. -/
theorem mem_filesNow (h : r.InTree s) :
    g ∈ r.filesNow s ↔
      ∃ f, r.Finds s f ∧ g = ⟨r.pathOf s f, f.text, Fate.ofText r.tags f.name f.text⟩ := by
  rw [Request.filesNow, List.mem_map]
  constructor
  · rintro ⟨path, hpath, rfl⟩
    obtain ⟨f, hf, rfl⟩ := h.isRooted.exists_of_mem_found hpath
    obtain ⟨d, hreaches, hmem⟩ := h.exists_reaches hf
    exact ⟨f, hf, hreaches.surveyed_pathOf hmem⟩
  · rintro ⟨f, hf, rfl⟩
    obtain ⟨d, hreaches, hmem⟩ := h.exists_reaches hf
    obtain ⟨-, -, -, hfound⟩ := hf
    exact ⟨r.pathOf s f, hfound, hreaches.surveyed_pathOf hmem⟩

theorem keyOf_eq_iff (h : r.InTree s) (hhome : ∀ n ∈ s.home, IsPart n ∧ n ≠ "..")
    (hf : r.Finds s f) :
    r.keyOf s f = wayText f.dirs ↔ StandsIn s.home (r.rootAt s) s.rootAt f.dirs := by
  obtain ⟨d, hreaches, hmem⟩ := h.exists_reaches hf
  exact hreaches.keyOf_eq_iff hmem hhome

/-- The key of a file is the way to its directory, unless the surveyed directory lies above a root
that is not the working directory. -/
theorem keyOf_eq (h : r.InTree s)
    (hplace : (r.rootAt s <+: s.rootAt → r.rootAt s = s.rootAt) ∨ s.home = s.rootAt)
    (hf : r.Finds s f) : r.keyOf s f = wayText f.dirs := by
  obtain ⟨d, hreaches, hmem⟩ := h.exists_reaches hf
  apply hreaches.keyOf_of_standsIn hmem
  rcases hplace with habove | hhome
  · exact standsIn_of_not_below habove s.home f.dirs
  · rw [hhome]
    exact standsIn_self (r.rootAt s) s.rootAt f.dirs

theorem wayText_dirs_inj (h : r.InTree s) (hf : r.Finds s f) (hf' : r.Finds s f') :
    wayText f.dirs = wayText f'.dirs ↔ f.dirs = f'.dirs := by
  obtain ⟨d, hd, hmem, -⟩ := hf
  obtain ⟨d', hd', hmem', -⟩ := hf'
  obtain rfl := Option.some.inj (hd.symm.trans hd')
  have hreaches := h.reaches d hd
  exact wayText_inj (hreaches.isPart_of_mem_dirs hmem) (hreaches.isPart_of_mem_dirs hmem')

end Request.InTree

/-! ## Requests within the project -/

/-- A request for a directory of the project, whose root is an absolute path without parent steps and
whose files and directories have proper names. -/
structure Request.InProject (r : Request) (s : Session) : Prop where
  isAbsolute : s.root.isAbsolute = true
  isPart : ∀ part ∈ s.root.parts, IsPart part ∧ part ≠ ".."
  proper : ∀ d, s.tree.directory? s.root = some d → d.Proper
  below : s.root.parts <+: (r.root s).location []

namespace Request.InProject

theorem isRooted (h : r.InProject s) : s.IsRooted :=
  ⟨h.isAbsolute, fun part hpart => (h.isPart part hpart).1⟩

theorem rootAt_eq (h : r.InProject s) : s.rootAt = s.root.parts :=
  Session.rootAt_eq_parts fun part hpart => (h.isPart part hpart).2

theorem notAbove (h : r.InProject s) (hpre : r.rootAt s <+: s.rootAt) : r.rootAt s = s.rootAt := by
  rw [h.rootAt_eq] at hpre ⊢
  exact hpre.eq_of_length (Nat.le_antisymm hpre.length_le h.below.length_le)

theorem reaches (h : r.InProject s) (hd : s.tree.directory? (r.root s) = some d) :
    r.Reaches s d := by
  obtain ⟨way, hway⟩ := h.below
  obtain ⟨above, htrail, -⟩ := exists_trail hd
  rw [← hway] at htrail
  obtain ⟨project, before, since, hbefore, hsince⟩ := htrail.split
  have hproject : s.tree.directory? s.root = some project := by
    have hlookup := hbefore.lookup?_append []
    rw [List.append_nil] at hlookup
    rw [Directory.directory?, Directory.find?, hlookup]
    rfl
  obtain ⟨hproper, hnames⟩ := hsince.proper (h.proper project hproject)
  refine ⟨h.isRooted, ⟨project, hproject⟩, hd, hproper, fun part hpart => ?_⟩
  rw [h.rootAt_eq, Request.rootAt, ← hway, wayTo_self_append] at hpart
  exact (hnames part hpart).backslash_not_mem

theorem inTree (h : r.InProject s) : r.InTree s :=
  ⟨h.isRooted, fun _ hd => h.reaches hd⟩

theorem nodup_found (h : r.InProject s) : (r.found s).Nodup := by
  rw [h.isRooted.found_eq]
  cases hd : s.tree.directory? (r.root s) with
  | none =>
    rw [goFiles_eq_nil hd]
    exact List.nodup_nil
  | some d =>
    have hreaches := h.reaches hd
    apply (pairwise_lt_goFiles hd hreaches.proper (hreaches.startsAt h.notAbove)).imp
    rintro a b hab rfl
    exact String.lt_irrefl a hab

/-- The key of a file's package is the way to the file's directory from the surveyed one. -/
theorem keyOf_eq (h : r.InProject s) (hf : r.Finds s f) : r.keyOf s f = wayText f.dirs :=
  h.inTree.keyOf_eq (Or.inl h.notAbove) hf

end Request.InProject

end ImportSurvey
