import ImportSurvey.Proofs.Text.Cut
import ImportSurvey.Proofs.Text.Trim
import ImportSurvey.Proofs.Text.Utf8
import ImportSurvey.Workspace.ModuleFile
/-!
# Module files as they are written

A module file with nothing but blank lines and comments above its declaration. Each of these lines
is passed over whatever follows it, so the path that the file declares is what is read, bare or in
quotes, with any line ends and with anything behind it.
-/

namespace ImportSurvey.Workspace

open Text

/-! ## Written module files -/

def isInlineBlank (c : Char) : Bool :=
  isBlank c && isInLine c

/-- What stands behind the indentation of a line that declares nothing. -/
inductive IdleContent
  | nothing
  | comment (text : List Char) (inLine : ∀ c ∈ text, isInLine c = true)

def IdleContent.text : IdleContent → List Char
  | nothing => []
  | comment text _ => '/' :: '/' :: text

structure IdleLine where
  indent : List Char
  content : IdleContent
  ending : LineEnd
  indent_inline : ∀ c ∈ indent, isInlineBlank c = true

namespace IdleLine

def line (l : IdleLine) : List Char :=
  l.indent ++ l.content.text

def text (l : IdleLine) : List Char :=
  l.line ++ l.ending.text

end IdleLine

/-- A module file that declares its path on the first line that is neither blank nor a comment. -/
structure WrittenModule where
  above : List IdleLine
  indent : List Char
  gap : List Char
  path : List Char
  quoted : Bool
  rest : List Char
  indent_inline : ∀ c ∈ indent, isInlineBlank c = true
  gap_inline : ∀ c ∈ gap, isInlineBlank c = true
  gap_ne_nil : gap ≠ []
  path_plain : ∀ c ∈ path, c ≠ '\x22' ∧ isBlank c = false
  path_ne_nil : path ≠ []
  bare_ends : quoted = false → rest.head?.all isBlank = true

namespace WrittenModule

def fromPath (m : WrittenModule) : List Char :=
  if m.quoted then '\x22' :: (m.path ++ '\x22' :: m.rest) else m.path ++ m.rest

def fromDeclaration (m : WrittenModule) : List Char :=
  m.indent ++ ("module".toList ++ (m.gap ++ m.fromPath))

def text (m : WrittenModule) : List Char :=
  m.above.flatMap IdleLine.text ++ m.fromDeclaration

end WrittenModule

variable {cs xs indent gap path rest : List Char}

private theorem blank_of_inline (h : ∀ c ∈ indent, isInlineBlank c = true) :
    ∀ c ∈ indent, isBlank c = true :=
  fun c hc => (Bool.and_eq_true_iff.1 (h c hc)).1

private theorem inLine_of_inline (h : ∀ c ∈ indent, isInlineBlank c = true) :
    ∀ c ∈ indent, isInLine c = true :=
  fun c hc => (Bool.and_eq_true_iff.1 (h c hc)).2

theorem IdleLine.inLine (l : IdleLine) : ∀ c ∈ l.line, isInLine c = true := by
  intro c hc
  rcases List.mem_append.1 hc with hindent | hcontent
  · exact inLine_of_inline l.indent_inline c hindent
  · cases hl : l.content with
    | nothing =>
      rw [hl] at hcontent
      contradiction
    | comment text inLine =>
      rw [hl, IdleContent.text, List.mem_cons, List.mem_cons] at hcontent
      rcases hcontent with rfl | rfl | htext
      · rfl
      · rfl
      · exact inLine c htext

/-! ## Reading one declaration -/

theorem declaration?_ne_nil (h : declaration? cs = some path) : path ≠ [] := by
  rintro rfl
  unfold declaration? at h
  split at h
  · contradiction
  · dsimp only at h
    split at h
    · contradiction
    · contradiction
    · rename_i hne
      exact hne (Option.some.inj h)

theorem declaration?_blank_append (h : ∀ c ∈ indent, isBlank c = true) (cs : List Char) :
    declaration? (indent ++ cs) = declaration? cs := by
  rw [declaration?, trimLeft_append h]
  rfl

theorem declaration?_slash (cs : List Char) : declaration? ('/' :: cs) = none := by
  rw [declaration?, trimLeft_cons_of_not_blank rfl]
  rfl

private theorem takeWhile_isBareChar (hpath : ∀ c ∈ path, isBareChar c = true)
    (hrest : rest.head?.all fun c => !isBareChar c) :
    (path ++ rest).takeWhile isBareChar = path := by
  rw [List.takeWhile_append_of_pos hpath]
  cases rest with
  | nil => rw [List.takeWhile_nil, List.append_nil]
  | cons c rest =>
    have hc : isBareChar c = false := by simpa using hrest
    rw [List.takeWhile_cons_of_neg (by simp [hc]), List.append_nil]

/-- What is declared is the path that is read behind the word and the gap, a quote in front of it
left out. -/
theorem declaration?_module (hne : gap ≠ []) (hgap : ∀ c ∈ gap, isBlank c = true)
    (hcs : trimLeft cs = cs) (hpath : path ≠ [])
    (hread : ((['\x22'].isPrefixOf? cs).getD cs).takeWhile isBareChar = path) :
    declaration? ("module".toList ++ (gap ++ cs)) = some path := by
  have hword : trimLeft ("module".toList ++ (gap ++ cs)) = "module".toList ++ (gap ++ cs) :=
    trimLeft_append_of_self rfl (by decide) _
  have hrest : "module".toList.isPrefixOf? ("module".toList ++ (gap ++ cs)) = some (gap ++ cs) :=
    isPrefixOf?_eq_some.2 rfl
  have hblank : (gap ++ cs).head?.any isBlank = true := by
    cases gap with
    | nil => contradiction
    | cons c gap => exact hgap c List.mem_cons_self
  rw [declaration?, hword, hrest]
  dsimp only
  rw [trimLeft_append hgap, hcs, hread, hblank]
  cases path with
  | nil => contradiction
  | cons c path => rfl

theorem declaration?_quoted (hne : gap ≠ []) (hgap : ∀ c ∈ gap, isBlank c = true)
    (hpath : path ≠ []) (hbare : ∀ c ∈ path, isBareChar c = true) (rest : List Char) :
    declaration? ("module".toList ++ (gap ++ '\x22' :: (path ++ '\x22' :: rest))) = some path := by
  apply declaration?_module hne hgap (trimLeft_cons_of_not_blank rfl _) hpath
  have hquote : ['\x22'].isPrefixOf? ('\x22' :: (path ++ '\x22' :: rest)) =
      some (path ++ '\x22' :: rest) := isPrefixOf?_eq_some.2 rfl
  rw [hquote, Option.getD_some]
  exact takeWhile_isBareChar hbare rfl

theorem declaration?_bare (hne : gap ≠ []) (hgap : ∀ c ∈ gap, isBlank c = true)
    (hpath : path ≠ []) (hbare : ∀ c ∈ path, isBareChar c = true)
    (hrest : rest.head?.all isBlank = true) :
    declaration? ("module".toList ++ (gap ++ (path ++ rest))) = some path := by
  obtain ⟨c, more, rfl⟩ := List.exists_cons_of_ne_nil hpath
  have hc : c ≠ '\x22' ∧ isBlank c = false := by
    simpa [isBareChar] using hbare c List.mem_cons_self
  have htrim : trimLeft (c :: more ++ rest) = c :: more ++ rest :=
    trimLeft_cons_of_not_blank hc.2 _
  have hquote : ['\x22'].isPrefixOf? (c :: more ++ rest) = none :=
    isPrefixOf?_eq_none (by simpa using hc.1.symm)
  have hends : rest.head?.all fun d => !isBareChar d := by
    cases rest with
    | nil => rfl
    | cons d rest =>
      have hd : isBlank d = true := hrest
      simp [isBareChar, hd]
  apply declaration?_module hne hgap htrim hpath
  rw [hquote, Option.getD_none]
  exact takeWhile_isBareChar hbare hends

/-! ## Searching line by line -/

theorem firstDeclaration?_ne_nil {lineStart : Bool}
    (h : firstDeclaration? lineStart cs = some path) : path ≠ [] := by
  induction cs generalizing lineStart with
  | nil => contradiction
  | cons c cs ih =>
    rcases Option.or_eq_some_iff.1 h with hhere | ⟨-, hlater⟩
    · cases lineStart with
      | false => contradiction
      | true => exact declaration?_ne_nil hhere
    · exact ih hlater

theorem firstDeclaration?_of_declaration (h : declaration? cs = some path) :
    firstDeclaration? true cs = some path := by
  cases cs with
  | nil => contradiction
  | cons c cs => rw [firstDeclaration?, if_pos rfl, h, Option.some_or]

theorem declaration?_or_firstDeclaration? (cs : List Char) :
    (declaration? cs).or (firstDeclaration? true cs) = firstDeclaration? true cs := by
  cases hhere : declaration? cs with
  | none => rw [Option.none_or]
  | some path => rw [firstDeclaration?_of_declaration hhere, Option.some_or]

theorem firstDeclaration?_line (h : '\n' ∉ xs) (lineStart : Bool) (cs : List Char) :
    firstDeclaration? lineStart (xs ++ '\n' :: cs) =
      (if lineStart then declaration? (xs ++ '\n' :: cs) else none).or
        (firstDeclaration? true cs) := by
  induction xs generalizing lineStart with
  | nil => rfl
  | cons x xs ih =>
    have hx : (x == '\n') = false := by
      rw [beq_eq_false_iff_ne]
      exact fun heq => h (heq ▸ List.mem_cons_self)
    have hxs : '\n' ∉ xs := fun hmem => h (List.mem_cons_of_mem x hmem)
    rw [List.cons_append, firstDeclaration?, hx, ih hxs, if_neg Bool.false_ne_true, Option.none_or]

/-- A line that declares nothing is passed over. -/
theorem firstDeclaration?_idleLine (l : IdleLine) (cs : List Char) :
    firstDeclaration? true (l.line ++ '\n' :: cs) = firstDeclaration? true cs := by
  have hline := (not_mem_of_inLine l.inLine).1
  have hindent := blank_of_inline l.indent_inline
  rw [firstDeclaration?_line hline, if_pos rfl, IdleLine.line, List.append_assoc,
    declaration?_blank_append hindent]
  cases hl : l.content with
  | nothing =>
    -- blanks in front of a declaration reach over the end of a blank line to what stands below it
    have hfeed : ∀ c ∈ ['\n'], isBlank c = true := List.all_eq_true.1 rfl
    have hbelow : declaration? ('\n' :: cs) = declaration? cs :=
      declaration?_blank_append hfeed cs
    rw [IdleContent.text, List.nil_append, hbelow, declaration?_or_firstDeclaration?]
  | comment text inLine =>
    have hnone : declaration? (IdleContent.text (.comment text inLine) ++ '\n' :: cs) = none :=
      declaration?_slash _
    rw [hnone, Option.none_or]

/-! ## Reading files -/

theorem firstDeclaration?_fold_idleLine (l : IdleLine) (cs : List Char) :
    firstDeclaration? true (foldLineEnds (l.text ++ cs)) =
      firstDeclaration? true (foldLineEnds cs) := by
  have hreturn := (not_mem_of_inLine l.inLine).2
  obtain ⟨rest, hrest, hcs⟩ := exists_foldLineEnds l.ending cs
  rw [IdleLine.text, List.append_assoc, foldLineEnds_append hreturn, hrest,
    firstDeclaration?_idleLine]
  rcases hcs with hcs | hcs
  · rw [hcs]
  · -- a line feed that would be a blank line is part of the end, so a blank line is to be added
    rw [hcs]
    exact (firstDeclaration?_idleLine ⟨[], .nothing, .lineFeed, by simp⟩ rest).symm

theorem firstDeclaration?_fold_idleLines (ls : List IdleLine) (cs : List Char) :
    firstDeclaration? true (foldLineEnds (ls.flatMap IdleLine.text ++ cs)) =
      firstDeclaration? true (foldLineEnds cs) := by
  induction ls with
  | nil => rfl
  | cons l ls ih =>
    rw [List.flatMap_cons, List.append_assoc, firstDeclaration?_fold_idleLine, ih]

theorem isBlank_head?_foldLineEnds (h : cs.head?.all isBlank = true) :
    (foldLineEnds cs).head?.all isBlank = true := by
  rw [head?_foldLineEnds]
  cases cs with
  | nil => rfl
  | cons c cs =>
    have hc : isBlank c = true := h
    by_cases hreturn : c = '\r'
    · simp only [List.head?_cons, Option.map_some, if_pos hreturn]
      rfl
    · simpa [hreturn] using hc

theorem modulePath?_ne_empty {top : Directory} {p : Path} {m : String}
    (h : modulePath? top p = some m) : m ≠ "" := by
  obtain ⟨text, -, hdeclared⟩ := Option.bind_eq_some_iff.1 h
  obtain ⟨path, hpath, rfl⟩ := Option.map_eq_some_iff.1 hdeclared
  intro hempty
  exact firstDeclaration?_ne_nil hpath (by simpa using congrArg String.toList hempty)

namespace WrittenModule

private theorem isBareChar_of_mem_path (m : WrittenModule) : ∀ c ∈ m.path, isBareChar c = true := by
  intro c hc
  obtain ⟨hquote, hblank⟩ := m.path_plain c hc
  simp [isBareChar, hquote, hblank]

theorem declaration?_fromDeclaration (m : WrittenModule) :
    declaration? m.fromDeclaration = some m.path := by
  have hgap := blank_of_inline m.gap_inline
  have hbare := m.isBareChar_of_mem_path
  rw [fromDeclaration, declaration?_blank_append (blank_of_inline m.indent_inline), fromPath]
  cases hquoted : m.quoted with
  | true => exact declaration?_quoted m.gap_ne_nil hgap m.path_ne_nil hbare m.rest
  | false => exact declaration?_bare m.gap_ne_nil hgap m.path_ne_nil hbare (m.bare_ends hquoted)

def folded (m : WrittenModule) : WrittenModule :=
  { m with
    above := []
    rest := foldLineEnds m.rest
    bare_ends := fun h => isBlank_head?_foldLineEnds (m.bare_ends h) }

theorem foldLineEnds_fromPath (m : WrittenModule) :
    foldLineEnds m.fromPath = m.folded.fromPath := by
  have hpath : '\r' ∉ m.path := fun hmem => absurd (m.path_plain _ hmem).2 (by decide)
  have hquote : '\x22' ≠ '\r' := by decide
  have hfolded : m.folded.fromPath = if m.quoted
      then '\x22' :: (m.path ++ '\x22' :: foldLineEnds m.rest)
      else m.path ++ foldLineEnds m.rest := rfl
  rw [hfolded, fromPath]
  by_cases hquoted : m.quoted = true
  · rw [if_pos hquoted, if_pos hquoted, foldLineEnds_cons hquote, foldLineEnds_append hpath,
      foldLineEnds_cons hquote]
  · rw [if_neg hquoted, if_neg hquoted, foldLineEnds_append hpath]

theorem foldLineEnds_fromDeclaration (m : WrittenModule) :
    foldLineEnds m.fromDeclaration = m.folded.fromDeclaration := by
  have hindent := (not_mem_of_inLine (inLine_of_inline m.indent_inline)).2
  have hgap := (not_mem_of_inLine (inLine_of_inline m.gap_inline)).2
  rw [fromDeclaration, foldLineEnds_append hindent, foldLineEnds_append (by decide),
    foldLineEnds_append hgap, foldLineEnds_fromPath]
  rfl

theorem firstDeclaration?_text (m : WrittenModule) :
    firstDeclaration? true (foldLineEnds m.text) = some m.path := by
  rw [text, firstDeclaration?_fold_idleLines, foldLineEnds_fromDeclaration]
  exact firstDeclaration?_of_declaration m.folded.declaration?_fromDeclaration

end WrittenModule

/-- A directory's module is what its module file declares below blank lines and comments, whatever
the bytes are that its text is read from. -/
theorem modulePath?_written {top : Directory} {directory : Path} {bytes : List UInt8}
    (m : WrittenModule)
    (hbytes : top.bytes? (directory.join (.parse "go.mod")) = some bytes)
    (htext : decodeLossy bytes = m.text) :
    modulePath? top directory = some (String.ofList m.path) := by
  have hread : top.text? (directory.join (.parse "go.mod")) =
      some (String.ofList (foldLineEnds m.text)) := by
    rw [Directory.text?, hbytes, Option.map_some, htext]
  rw [modulePath?, hread, Option.bind_some, declaredModule?, String.toList_ofList,
    m.firstDeclaration?_text, Option.map_some]

/-! ## A file with lines above the declaration -/

def commentedBytes : List UInt8 :=
  encode "\r\n\t// module example.com/old ".toList ++ 0xff ::
    encode "\r\n  module\t \"example.org/tools\"//\nmodule example.com/later\n".toList

def commentedModule : WrittenModule where
  above := [⟨[], .nothing, .carriageReturn, by simp⟩, ⟨[], .nothing, .lineFeed, by simp⟩,
    ⟨['\t'], .comment " module example.com/old \ufffd".toList (List.all_eq_true.1 (by decide)),
      .both, List.all_eq_true.1 (by decide)⟩]
  indent := [' ', ' ']
  gap := ['\t', ' ']
  path := "example.org/tools".toList
  quoted := true
  rest := "//\nmodule example.com/later\n".toList
  indent_inline := List.all_eq_true.1 (by decide)
  gap_inline := List.all_eq_true.1 (by decide)
  gap_ne_nil := by decide
  path_plain := by
    have hall : ("example.org/tools".toList.all fun c => c != '\x22' && !isBlank c) = true := by
      decide
    simpa using List.all_eq_true.1 hall
  path_ne_nil := by decide
  bare_ends := fun h => absurd h (by decide)

def commentedProject : Directory :=
  .sub "project" (.file "go.mod" (some commentedBytes) .empty) .empty

theorem modulePath?_written_commented :
    commentedProject.bytes? (Path.join (.parse "/project") (.parse "go.mod")) =
        some commentedBytes ∧
      decodeLossy commentedBytes = commentedModule.text ∧
      modulePath? commentedProject (.parse "/project") = some "example.org/tools" := by
  have hbytes : commentedProject.bytes? (Path.join (.parse "/project") (.parse "go.mod")) =
      some commentedBytes := rfl
  have htext : decodeLossy commentedBytes = commentedModule.text := by
    decide +kernel
  exact ⟨hbytes, htext, modulePath?_written commentedModule hbytes htext⟩

end ImportSurvey.Workspace
