import ImportSurvey.Proofs.Workspace.PathText
import ImportSurvey.Workspace.Exclusion
/-!
# Exclusions without wildcards

A pattern that is written as a relative path is told apart by its parts. With one part it excludes
every path that has this part. With more it excludes what lies below it, and not the path that it
names itself, be slashes put behind it or not. The path without parts excludes nothing.
-/

namespace ImportSurvey.Workspace

open Text

variable {way more : List String} {name path pattern exclusion root : String} {cs : List Char}
  {n : Nat}

/-! ## Paths as printed -/

/-- A relative path as it is printed: its parts between single slashes, or a dot for none. -/
structure IsPrinted (s : String) : Prop where
  isRelative : (Path.parse s).isAbsolute = false
  text_eq : (Path.parse s).text = s

def partsOf (s : String) : List String :=
  (Path.parse s).parts

theorem IsPrinted.exists_way (h : IsPrinted path) :
    ∃ way, (∀ part ∈ way, IsPart part) ∧ wayText way = path := by
  obtain ⟨hrelative, htext⟩ := h
  have hanchor : (Path.parse path).anchor = .none := by simpa [Path.isAbsolute] using hrelative
  refine ⟨partsOf path, fun part hpart => isPart_of_mem_parse hpart, ?_⟩
  calc wayText (partsOf path) = (Path.parse path).text := by
        simp [Path.text, hanchor, Anchor.text, wayText, partsOf]
    _ = path := htext

theorem partsOf_wayText (h : ∀ part ∈ way, IsPart part) : partsOf (wayText way) = way := by
  rw [partsOf, parse_wayText h]

theorem components_wayText (h : ∀ part ∈ way, IsPart part) :
    (Path.parse (wayText way)).components = way := by
  rw [parse_wayText h]
  rfl

theorem elements_wayText (hne : way ≠ []) (h : ∀ part ∈ way, IsPart part) :
    elements (wayText way) = way := by
  rw [wayText_of_ne_nil hne]
  exact elements_joinElements hne fun part hpart => (h part hpart).slash_not_mem

/-! ## Slashes -/

theorem slash_prefix_iff :
    (root ++ "/").toList <+: path.toList ↔ elements root <+: elements path ∧ path ≠ root := by
  constructor
  · rintro ⟨rest, hrest⟩
    have hpath : path = root ++ "/" ++ String.ofList rest := by
      apply String.toList_injective
      rw [String.toList_append, String.toList_ofList, hrest]
    refine ⟨covers_iff.1 (covers_iff_eq_or.2 (.inr ⟨_, hpath⟩)), ?_⟩
    rintro rfl
    have hlength := congrArg List.length hrest
    simp at hlength
  · rintro ⟨hfront, hne⟩
    rcases covers_iff_eq_or.1 (covers_iff.2 hfront) with heq | ⟨rest, rfl⟩
    · exact absurd heq hne
    · exact ⟨rest.toList, by simp⟩

private theorem slash_mem_joinElements (a b : String) (es : List String) :
    '/' ∈ (joinElements (a :: b :: es)).toList := by
  simp [joinElements_cons_cons]

private theorem exists_joinElements_concat (front : List String) (last : String) :
    ∃ cs, (joinElements (front ++ [last])).toList = cs ++ last.toList := by
  cases front with
  | nil => exact ⟨[], by simp [joinElements]⟩
  | cons a es =>
    rw [joinElements_append (List.cons_ne_nil a es) (List.cons_ne_nil last [])]
    exact ⟨(joinElements (a :: es) ++ "/").toList, by simp [joinElements]⟩

private theorem getLast?_joinElements (h : ∀ part ∈ way, IsPart part) :
    (joinElements way).toList.getLast? ≠ some '/' := by
  rcases List.eq_nil_or_concat way with rfl | ⟨front, last, rfl⟩
  · simp [joinElements]
  · rw [List.concat_eq_append] at h ⊢
    have hlast : IsPart last := h last (by simp)
    obtain ⟨cs, hcs⟩ := exists_joinElements_concat front last
    obtain ⟨c, rest, hrest, -⟩ := hlast.exists_cons
    intro hslash
    have hend : last.toList.getLast? = some '/' := by simpa [hcs, hrest] using hslash
    exact hlast.slash_not_mem (List.mem_of_getLast? hend)

private theorem dropFinalSlashes_append (h : cs.getLast? ≠ some '/') (n : Nat) :
    dropFinalSlashes (String.ofList (cs ++ List.replicate n '/')) = String.ofList cs := by
  have hslashes : ∀ c ∈ List.replicate n '/', (c == '/') = true := by
    intro c hc
    rw [List.eq_of_mem_replicate hc]
    rfl
  have hstop : cs.reverse.dropWhile (· == '/') = cs.reverse := by
    cases hcs : cs.reverse with
    | nil => rfl
    | cons c rest =>
      have hc : c ≠ '/' := by
        rintro rfl
        exact h (by rw [← List.head?_reverse, hcs, List.head?_cons])
      rw [List.dropWhile_cons_of_neg (by simpa using hc)]
  rw [dropFinalSlashes, String.toList_ofList, List.reverse_append, List.reverse_replicate,
    List.dropWhile_append_of_pos hslashes, hstop, List.reverse_reverse]

def slashes (n : Nat) : String :=
  String.ofList (List.replicate n '/')

/-! ## Patterns by their number of parts -/

theorem matchesExclusion_wayText (h : ∀ part ∈ way, IsPart part) (hstar : '*' ∉ exclusion.toList) :
    matchesExclusion (wayText way) exclusion = true ↔
      exclusion ∈ way ∨ '/' ∈ exclusion.toList ∧
        (dropFinalSlashes exclusion ++ "/").toList <+: (wayText way).toList := by
  simp [matchesExclusion, components_wayText h, hstar, List.isPrefixOf_iff_prefix]

theorem matchesExclusion_dot (h : ∀ part ∈ way, IsPart part) :
    matchesExclusion (wayText way) "." = false := by
  rw [Bool.eq_false_iff, ne_eq, matchesExclusion_wayText h (by decide)]
  rintro (hmem | ⟨hslash, -⟩)
  · exact (h "." hmem).ne_dot rfl
  · exact absurd hslash (by decide)

theorem matchesExclusion_part (h : ∀ part ∈ way, IsPart part) (hname : IsPart name)
    (hstar : '*' ∉ name.toList) : matchesExclusion (wayText way) name = true ↔ name ∈ way := by
  rw [matchesExclusion_wayText h hstar, or_iff_left]
  rintro ⟨hslash, -⟩
  exact hname.slash_not_mem hslash

theorem prefix_wayText_iff (h : ∀ part ∈ way, IsPart part) (hmore : ∀ part ∈ more, IsPart part)
    (hlong : 2 ≤ more.length) :
    (joinElements more ++ "/").toList <+: (wayText way).toList ↔ more <+: way ∧ way ≠ more := by
  have hne : more ≠ [] := by
    rintro rfl
    contradiction
  have hinj : wayText way ≠ joinElements more ↔ way ≠ more := by
    rw [← wayText_of_ne_nil hne, ne_eq, wayText_inj h hmore]
  have hmore' : elements (joinElements more) = more := by
    rw [← wayText_of_ne_nil hne, elements_wayText hne hmore]
  rw [slash_prefix_iff, hinj, hmore', and_congr_left_iff]
  intro _
  by_cases hway : way = []
  · -- the path without parts is a single dot as text
    rw [hway, show elements (wayText []) = ["."] by decide]
    constructor
    · intro hfront
      have hshort : more.length ≤ 1 := hfront.length_le
      omega
    · intro hfront
      have hshort : more.length ≤ 0 := hfront.length_le
      omega
  · rw [elements_wayText hway h]

theorem matchesExclusion_parts (h : ∀ part ∈ way, IsPart part) (hmore : ∀ part ∈ more, IsPart part)
    (hlong : 2 ≤ more.length) (hstar : '*' ∉ (wayText more).toList) (n : Nat) :
    matchesExclusion (wayText way) (wayText more ++ slashes n) = true ↔
      more <+: way ∧ way ≠ more := by
  match more, hlong with
  | a :: b :: es, hlong =>
    have htext : wayText (a :: b :: es) = joinElements (a :: b :: es) := rfl
    have hslash : '/' ∈ (joinElements (a :: b :: es) ++ slashes n).toList := by
      rw [String.toList_append]
      exact List.mem_append_left _ (slash_mem_joinElements a b es)
    have hdrop : dropFinalSlashes (joinElements (a :: b :: es) ++ slashes n) =
        joinElements (a :: b :: es) := by
      have := dropFinalSlashes_append (getLast?_joinElements hmore) n
      rwa [String.ofList_append, String.ofList_toList] at this
    have hstar' : '*' ∉ (wayText (a :: b :: es) ++ slashes n).toList := by
      rw [String.toList_append, List.mem_append, not_or]
      refine ⟨hstar, fun hmem => ?_⟩
      rw [slashes, String.toList_ofList] at hmem
      exact absurd (List.eq_of_mem_replicate hmem) (by decide)
    rw [matchesExclusion_wayText h hstar', htext, hdrop, prefix_wayText_iff h hmore hlong,
      or_iff_right, and_iff_right hslash]
    intro hmem
    exact (h _ hmem).slash_not_mem hslash

/-- A pattern made of parts is told apart by their number. -/
theorem matchesExclusion_slashes (h : ∀ part ∈ way, IsPart part)
    (hmore : ∀ part ∈ more, IsPart part) (hstar : '*' ∉ (wayText more).toList) (n : Nat)
    (hslashes : more.length ≤ 1 → n = 0) :
    matchesExclusion (wayText way) (wayText more ++ slashes n) = true ↔
      (∃ name, more = [name] ∧ name ∈ way) ∨ 2 ≤ more.length ∧ more <+: way ∧ way ≠ more := by
  match more with
  | [] =>
    rw [hslashes (by simp)]
    change matchesExclusion (wayText way) "." = true ↔ _
    simp [matchesExclusion_dot h]
  | [name] =>
    have htext : wayText [name] = name := by simp [wayText, joinElements]
    rw [htext] at hstar
    rw [hslashes (by simp), htext]
    change matchesExclusion (wayText way) (name ++ "") = true ↔ _
    rw [String.append_empty, matchesExclusion_part h (hmore name (by simp)) hstar]
    simp
  | a :: b :: es =>
    rw [matchesExclusion_parts h hmore (by simp) hstar n]
    simp

/-! ## What a pattern should cover -/

/-- What a pattern is to cover by its parts: with one part, every path that has it, and in any case
the path that it names and all below that. -/
def CoversWay (pattern path : List String) : Prop :=
  (∃ name, pattern = [name] ∧ name ∈ path) ∨ pattern <+: path

theorem coversWay_of_long (hlong : 2 ≤ more.length) : CoversWay more way ↔ more <+: way := by
  rw [CoversWay, or_iff_right]
  rintro ⟨name, rfl, -⟩
  contradiction

theorem coversWay_singleton : CoversWay [name] way ↔ name ∈ way := by
  constructor
  · rintro (⟨other, hother, hmem⟩ | hfront)
    · obtain ⟨rfl, -⟩ := List.cons.inj hother
      exact hmem
    · exact hfront.subset (List.mem_singleton_self name)
  · intro hmem
    exact .inl ⟨name, rfl, hmem⟩

theorem coversWay_agrees_iff :
    ((∃ name, more = [name] ∧ name ∈ way) ∨ 2 ≤ more.length ∧ more <+: way ∧ way ≠ more ↔
        CoversWay more way) ↔ more ≠ [] ∧ (way = more → more.length = 1) := by
  match more with
  | [] => simp [CoversWay]
  | [name] => simp [coversWay_singleton]
  | a :: b :: es =>
    rw [coversWay_of_long (by simp)]
    by_cases heq : way = a :: b :: es
    · simp [heq]
    · simp [heq]

/-- A printed path without stars excludes, if it has one part, the paths with this part, and if it
has more, the paths that continue it. So it covers all that it should unless it has no parts at all,
or has several and is itself the path. -/
theorem matchesExclusion_iff (hpath : IsPrinted path) (hpattern : IsPrinted pattern)
    (hstar : '*' ∉ pattern.toList) (n : Nat) (hslashes : (partsOf pattern).length ≤ 1 → n = 0) :
    (matchesExclusion path (pattern ++ slashes n) = true ↔
        (∃ name, partsOf pattern = [name] ∧ name ∈ partsOf path) ∨
          2 ≤ (partsOf pattern).length ∧ partsOf pattern <+: partsOf path ∧ path ≠ pattern) ∧
      ((matchesExclusion path (pattern ++ slashes n) = true ↔
          CoversWay (partsOf pattern) (partsOf path)) ↔
        partsOf pattern ≠ [] ∧ (path = pattern → (partsOf pattern).length = 1)) := by
  obtain ⟨way, hway, rfl⟩ := hpath.exists_way
  obtain ⟨more, hmore, rfl⟩ := hpattern.exists_way
  rw [partsOf_wayText hmore] at hslashes
  have hmatch := matchesExclusion_slashes hway hmore hstar n hslashes
  rw [partsOf_wayText hway, partsOf_wayText hmore, ne_eq (wayText way), wayText_inj hway hmore]
  refine ⟨hmatch, ?_⟩
  rw [hmatch]
  exact coversWay_agrees_iff

theorem matchesExclusion_iff_slashes :
    matchesExclusion "cmd/tool/x.go" ("cmd/tool" ++ slashes 2) = true ∧
      ¬ (matchesExclusion "cmd/tool" ("cmd/tool" ++ slashes 2) = true ↔
        CoversWay (partsOf "cmd/tool") (partsOf "cmd/tool")) := by
  have hpath : IsPrinted "cmd/tool/x.go" := ⟨by decide, by decide⟩
  have hpattern : IsPrinted "cmd/tool" := ⟨by decide, by decide⟩
  have hbelow := (matchesExclusion_iff hpath hpattern (by decide) 2 (by decide)).1
  have hitself := (matchesExclusion_iff hpattern hpattern (by decide) 2 (by decide)).2
  refine ⟨hbelow.2 (.inr (by decide)), ?_⟩
  rw [hitself]
  decide

/-- A path of several parts does not cover itself. -/
theorem exclusion_misses_itself :
    ¬ ∀ path pattern : String, IsPrinted path → IsPrinted pattern → '*' ∉ pattern.toList →
      (matchesExclusion path pattern = true ↔ CoversWay (partsOf pattern) (partsOf path)) := by
  intro h
  have hprinted : IsPrinted "pkg/a.go" := ⟨by decide, by decide⟩
  have hmatch := h "pkg/a.go" "pkg/a.go" hprinted hprinted (by decide)
  exact absurd (hmatch.2 (.inr (List.prefix_refl _))) (by decide)

end ImportSurvey.Workspace
