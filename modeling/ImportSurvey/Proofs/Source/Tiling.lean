import ImportSurvey.Proofs.Source.Stream
import Mathlib.Logic.ExistsUnique
/-!
# Tokens tile their text

Every token is the piece of the text between its offsets, on the line that the line ends before it
make. The tokens follow one another, and what lies in none of them is blank, so nothing of the text
is lost or read twice. The same holds whatever rule the comments obey.
-/

namespace ImportSurvey.Source

variable {rule : CommentRule} {start line i : Nat} {c : Char} {cs : List Char} {t u : Token}

namespace Token

def Covers (t : Token) (i : Nat) : Prop :=
  t.start ≤ i ∧ i < t.stop

/-- A token that stands where it says in a text: the piece between its offsets, on its line. -/
structure StandsIn (t : Token) (cs : List Char) : Prop where
  nonempty : t.start < t.stop
  within : t.stop ≤ cs.length
  text : t.text.toList = cs.extract t.start t.stop
  line : t.line = 1 + (cs.take t.start).count '\n'

end Token

/-! ## Where a token stands -/

private theorem extract_append (pre text post : List Char) :
    (pre ++ (text ++ post)).extract pre.length (pre.length + text.length) = text := by
  rw [List.extract_eq_take_drop, List.drop_left, Nat.add_sub_cancel_left, List.take_left]

theorem standsIn_tokenAt {text : List Char} (h : text ≠ []) (pre post : List Char)
    (kind : TokenKind) (closed : Bool) :
    (tokenAt pre.length (1 + pre.count '\n') kind text closed).StandsIn
      (pre ++ (text ++ post)) where
  nonempty := Nat.lt_add_of_pos_right (List.length_pos_iff.2 h)
  within := by
    simp only [tokenAt, List.length_append]
    omega
  text := by
    simp only [tokenAt, String.toList_ofList]
    exact (extract_append pre text post).symm
  line := by
    simp only [tokenAt, List.take_left]

theorem standsIn_of_mem (h : t ∈ tokensFrom rule 0 1 cs) : t.StandsIn cs := by
  obtain ⟨pre, c, rest, hsplit, -, htoken⟩ := exists_split_of_mem h
  have hne := lexeme_ne_nil rule c rest
  have happend := lexeme_append rule c rest
  have hplace := standsIn_tokenAt hne pre (lexeme rule c rest).2.rest (lexeme rule c rest).1
    (lexeme rule c rest).2.closed
  rw [happend, ← hsplit] at hplace
  rw [htoken, Nat.zero_add]
  exact hplace

/-! ## What lies in tokens -/

theorem eq_of_covers_same (ht : t ∈ tokensFrom rule start line cs)
    (hu : u ∈ tokensFrom rule start line cs) (hti : t.Covers i) (hui : u.Covers i) : t = u := by
  unfold Token.Covers at hti hui
  rcases eq_or_apart ht hu with heq | hbefore | hafter
  · exact heq
  · omega
  · omega

private theorem eq_take_append_cons_drop (h : cs[i]? = some c) :
    cs = cs.take i ++ c :: cs.drop (i + 1) := by
  obtain ⟨hlt, rfl⟩ := List.getElem?_eq_some_iff.1 h
  rw [List.getElem_cons_drop hlt, List.take_append_drop]

theorem exists_covers (h : cs[i]? = some c) (hgap : isGap c = false) :
    ∃ t ∈ tokensFrom rule 0 1 cs, t.Covers i := by
  have hlt : i < cs.length := (List.getElem?_eq_some_iff.1 h).1
  have hlength : 0 + (cs.take i).length = i := by
    rw [List.length_take]
    omega
  have hmem : ∃ t ∈ tokensFrom rule 0 1 cs,
      t.start ≤ 0 + (cs.take i).length ∧ 0 + (cs.take i).length < t.stop :=
    exists_mem_of_split (eq_take_append_cons_drop h) hgap
  rwa [hlength] at hmem

/-- A character of the text lies in exactly one token, or in none and is a blank. -/
theorem covered_or_gap (h : cs[i]? = some c) :
    (∃! t, t ∈ tokensFrom rule 0 1 cs ∧ t.Covers i) ∨
      isGap c = true ∧ ∀ t ∈ tokensFrom rule 0 1 cs, ¬ t.Covers i := by
  by_cases hcovered : ∃ t ∈ tokensFrom rule 0 1 cs, t.Covers i
  · left
    obtain ⟨t, ht, hti⟩ := hcovered
    refine ⟨t, ⟨ht, hti⟩, ?_⟩
    rintro u ⟨hu, hui⟩
    exact eq_of_covers_same hu ht hui hti
  · right
    refine ⟨?_, fun t ht hti => hcovered ⟨t, ht, hti⟩⟩
    cases hgap : isGap c with
    | true => rfl
    | false => exact absurd (exists_covers h hgap) hcovered

/-! ## The tokens of a source text -/

/-- Tokens stand where they say, each behind the one before it, and the characters in none of them
are blanks. -/
theorem tokens_tile (source : String) :
    (∀ t ∈ tokens source, t.StandsIn source.toList) ∧
      ((tokens source).Pairwise fun t u => t.stop ≤ u.start) ∧
      ∀ i c, source.toList[i]? = some c →
        (∃! t, t ∈ tokens source ∧ t.Covers i) ∨
          isGap c = true ∧ ∀ t ∈ tokens source, ¬ t.Covers i := by
  refine ⟨?_, ?_, ?_⟩
  · intro t ht
    exact standsIn_of_mem ht
  · exact pairwise_stop_le_start .openDirective 0 1 source.toList
  · intro i c hc
    exact covered_or_gap hc

/-- A string behind comments and a raw string that span lines stands on the right one, and the line
end that it escapes lies in one token only. -/
theorem tokens_tile_across_lines :
    (⟨.string, "\"s\\\nt\"", 47, 53, 5, true⟩ : Token).StandsIn
        "// +build x /* a\nb */\n/* c\n*/ package p; `q\nr` \"s\\\nt\"\x0c".toList ∧
      ∃! t, t ∈ tokens "// +build x /* a\nb */\n/* c\n*/ package p; `q\nr` \"s\\\nt\"\x0c" ∧
        t.Covers 50 := by
  have h := tokens_tile "// +build x /* a\nb */\n/* c\n*/ package p; `q\nr` \"s\\\nt\"\x0c"
  refine ⟨h.1 _ (by decide +kernel), ?_⟩
  rcases h.2.2 50 '\n' (by decide +kernel) with hone | hnone
  · exact hone
  · exact absurd hnone.1 (by decide)

end ImportSurvey.Source
