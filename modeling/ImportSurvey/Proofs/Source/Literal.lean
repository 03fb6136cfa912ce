import ImportSurvey.Proofs.Source.HeadGrammar
import ImportSurvey.Proofs.Source.Stream
/-!
# Literals and lines

An interpreted literal is a body behind a quote: characters that end neither it nor its line, and
characters that a backslash takes with it, line ends among them. So every line end in a literal is
escaped, and a literal that is not closed ends in front of the first line end that is not. It stays
on one line exactly if no backslash stands in front of a line end in it.
-/

namespace ImportSurvey.Source

variable {rule : CommentRule} {quote c : Char} {cs pre post body rest : List Char} {s : Span}
  {ts after next : List Token} {t : Token} {path : String} {paths others : List String}

/-! ## Escapes -/

/-- Whether the character behind a text is escaped: a backslash stands in front of it that is not
escaped itself. -/
def escapesNext (cs : List Char) : Bool :=
  cs.foldl (fun escaped c => !escaped && c == '\\') false

private theorem escapesNext_concat (cs : List Char) (c : Char) :
    escapesNext (cs ++ [c]) = (!escapesNext cs && c == '\\') := by
  rw [escapesNext, List.foldl_append]
  rfl

private theorem escapesNext_cons (hc : c ≠ '\\') (cs : List Char) :
    escapesNext (c :: cs) = escapesNext cs := by
  have hfirst : (c == '\\') = false := beq_eq_false_iff_ne.2 hc
  simp [escapesNext, hfirst]

theorem escapesNext_escape (c : Char) (cs : List Char) :
    escapesNext ('\\' :: c :: cs) = escapesNext cs := by
  simp [escapesNext]

/-- A line end that is escaped follows a backslash. -/
theorem infix_of_escapesNext (h : escapesNext pre = true) (c : Char) (post : List Char) :
    ['\\', c] <:+: pre ++ c :: post := by
  cases hpre : pre.reverse with
  | nil =>
    rw [List.reverse_eq_nil_iff.1 hpre] at h
    contradiction
  | cons d front =>
    have hconcat : pre = front.reverse ++ [d] := by
      rw [← List.reverse_cons, ← hpre, List.reverse_reverse]
    rw [hconcat, escapesNext_concat, Bool.and_eq_true, beq_iff_eq] at h
    obtain ⟨-, rfl⟩ := h
    exact ⟨front.reverse, post, by simp [hconcat]⟩

/-! ## Bodies -/

/-- What a literal holds behind its quote, as far as it is read without coming to an end. -/
inductive LiteralBody (quote : Char) : List Char → Prop
  | nil : LiteralBody quote []
  | plain {c : Char} {cs : List Char} (hc : c ≠ quote ∧ c ≠ '\\' ∧ c ≠ '\n')
      (more : LiteralBody quote cs) : LiteralBody quote (c :: cs)
  | escape {c : Char} {cs : List Char} (more : LiteralBody quote cs) :
      LiteralBody quote ('\\' :: c :: cs)

theorem LiteralBody.escapesNext_eq (h : LiteralBody quote cs) : escapesNext cs = false := by
  induction h with
  | nil => rfl
  | plain hc more ih => rw [escapesNext_cons hc.2.1, ih]
  | escape more ih => rw [escapesNext_escape, ih]

/-- What would end a literal or its line stands in the body only escaped. -/
theorem LiteralBody.escapesNext_of_split (h : LiteralBody quote cs) (hsplit : cs = pre ++ c :: post)
    (hc : c = quote ∨ c = '\n') (hquote : quote ≠ '\\') : escapesNext pre = true := by
  have hne : c ≠ '\\' := by
    rcases hc with rfl | rfl
    · exact hquote
    · decide
  induction h generalizing pre with
  | nil => simp at hsplit
  | @plain d cs hd more ih =>
    cases pre with
    | nil =>
      obtain ⟨rfl, -⟩ := List.cons.inj hsplit
      rcases hc with rfl | rfl
      · exact absurd rfl hd.1
      · exact absurd rfl hd.2.2
    | cons e pre =>
      obtain ⟨rfl, htail⟩ := List.cons.inj hsplit
      rw [escapesNext_cons hd.2.1]
      exact ih htail
  | @escape d cs more ih =>
    match pre with
    | [] => exact absurd (List.cons.inj hsplit).1.symm hne
    | [e] =>
      obtain ⟨rfl, -⟩ := List.cons.inj hsplit
      rfl
    | e :: f :: pre =>
      obtain ⟨rfl, htail⟩ := List.cons.inj hsplit
      obtain ⟨rfl, hmore⟩ := List.cons.inj htail
      rw [escapesNext_escape]
      exact ih hmore

/-! ## Ends -/

/-- How a literal with this body ends: with its quote, in front of a line end, or with the text,
where a backslash that has nothing to take may be left over. -/
inductive EndsAs (quote : Char) (body : List Char) : Span → Prop
  | closed {rest : List Char} : EndsAs quote body ⟨body ++ [quote], rest, true⟩
  | line {rest : List Char} : EndsAs quote body ⟨body, '\n' :: rest, false⟩
  | text : EndsAs quote body ⟨body, [], false⟩
  | backslash : EndsAs quote body ⟨body ++ ['\\'], [], false⟩

theorem EndsAs.append (h : EndsAs quote body s) (front : List Char) :
    EndsAs quote (front ++ body) ⟨front ++ s.text, s.rest, s.closed⟩ := by
  cases h with
  | closed =>
    rw [← List.append_assoc]
    exact .closed
  | line => exact .line
  | text => exact .text
  | backslash =>
    rw [← List.append_assoc]
    exact .backslash

theorem exists_endsAs (quote : Char) (cs : List Char) :
    ∃ body, LiteralBody quote body ∧ EndsAs quote body (interpretedTail quote cs) := by
  fun_induction interpretedTail quote cs with
  | case1 => exact ⟨[], .nil, .text⟩
  | case2 => exact ⟨[], .nil, .backslash⟩
  | case3 c cs tail ih =>
    obtain ⟨body, hbody, hends⟩ := ih
    exact ⟨'\\' :: c :: body, .escape hbody, hends.append ['\\', c]⟩
  | case4 c cs hlone hescape hquote =>
    rw [beq_iff_eq] at hquote
    subst hquote
    exact ⟨[], .nil, .closed⟩
  | case5 c cs hlone hescape hquote hline =>
    rw [beq_iff_eq] at hline
    subst hline
    exact ⟨[], .nil, .line⟩
  | case6 c cs hlone hescape hquote hline tail ih =>
    obtain ⟨body, hbody, hends⟩ := ih
    have hbackslash : c ≠ '\\' := by
      rintro rfl
      cases cs with
      | nil => exact hlone rfl rfl
      | cons d cs => exact hescape d cs rfl rfl
    have hc : c ≠ quote ∧ c ≠ '\\' ∧ c ≠ '\n' :=
      ⟨by simpa using hquote, hbackslash, by simpa using hline⟩
    exact ⟨c :: body, .plain hc hbody, hends.append [c]⟩

/-! ## Tokens -/

def TokenKind.isInterpreted : TokenKind → Bool
  | string | rune => true
  | _ => false

theorem interpreted_of_kind (h : (lexeme rule c cs).1.isInterpreted = true) :
    (c = '\x22' ∨ c = '\x27') ∧ (lexeme rule c cs).2 = interpreted c cs := by
  unfold lexeme at h ⊢
  repeat' split at h
  case isFalse.isFalse.isFalse.isTrue hquote => simp_all
  case isFalse.isFalse.isFalse.isFalse.isTrue hquote => simp_all
  all_goals simp [TokenKind.isInterpreted] at h

/-- An interpreted literal in its text: what stands in front of it, its quote and what is behind the
quote, the first part of which is the rest of the literal. -/
structure LiteralIn (t : Token) (cs pre rest : List Char) (quote : Char) (s : Span) : Prop where
  split : cs = pre ++ quote :: rest
  append : rest = s.text ++ s.rest
  start : t.start = pre.length
  stop : t.stop = pre.length + (s.text.length + 1)
  text : t.text.toList = quote :: s.text
  closed : t.closed = s.closed
  ne_backslash : quote ≠ '\\'
  ne_newline : quote ≠ '\n'

theorem exists_literalIn (ht : t ∈ tokensFrom rule 0 1 cs) (hkind : t.kind.isInterpreted = true) :
    ∃ pre rest quote body s, LiteralIn t cs pre rest quote s ∧ LiteralBody quote body ∧
      EndsAs quote body s := by
  obtain ⟨pre, quote, rest, hsplit, -, rfl⟩ := exists_split_of_mem ht
  obtain ⟨hquote, hspan⟩ := interpreted_of_kind hkind
  obtain ⟨body, hbody, hends⟩ := exists_endsAs quote rest
  refine ⟨pre, rest, quote, body, interpretedTail quote rest, ?_, hbody, hends⟩
  refine ⟨hsplit, (interpretedTail_append quote rest).symm, Nat.zero_add _, ?_, ?_, ?_, ?_, ?_⟩
  · simp [tokenAt, hspan, interpreted]
  · simp [tokenAt, hspan, interpreted]
  · simp [tokenAt, hspan, interpreted]
  · rcases hquote with rfl | rfl <;> decide
  · rcases hquote with rfl | rfl <;> decide

theorem LiteralIn.drop_start (h : LiteralIn t cs pre rest quote s) :
    cs.drop (t.start + 1) = rest := by
  rw [h.start, h.split, List.drop_length_add_append]
  rfl

theorem LiteralIn.drop_stop (h : LiteralIn t cs pre rest quote s) : cs.drop t.stop = s.rest := by
  rw [h.stop, h.split, List.drop_length_add_append, List.drop_succ_cons, h.append, List.drop_left]

theorem LiteralIn.isInfix (h : LiteralIn t cs pre rest quote s) : t.text.toList <:+: cs := by
  refine ⟨pre, s.rest, ?_⟩
  rw [h.text, h.split, h.append, List.append_assoc, List.cons_append]

/-- The line ends in the token are escaped. If it is not closed, it is followed by a line end that
is not escaped, or by nothing. -/
structure Token.EndsWithLine (t : Token) (cs : List Char) : Prop where
  escaped : ∀ pre post, t.text.toList = pre ++ '\n' :: post → escapesNext pre = true
  unclosed : t.closed = false → cs.drop t.stop = [] ∨
    escapesNext t.text.toList = false ∧ ∃ post, cs.drop t.stop = '\n' :: post

/-- The token holds no line end. If it is not closed, it ends in front of the first line end behind
its quote, or with the text if there is none. -/
structure Token.StaysOnLine (t : Token) (cs : List Char) : Prop where
  newline_not_mem : '\n' ∉ t.text.toList
  unclosed : t.closed = false →
    t.stop = t.start + 1 + ((cs.drop (t.start + 1)).takeWhile (· != '\n')).length

private theorem exists_of_append_eq {xs last : List Char} (h : xs ++ last = pre ++ c :: post)
    (hlast : c ∉ last) : ∃ more, xs = pre ++ c :: more := by
  rcases List.append_eq_append_iff.1 h with ⟨between, rfl, hbetween⟩ | ⟨between, rfl, hbetween⟩
  · exact absurd (by rw [hbetween]; simp) hlast
  · cases between with
    | nil => exact absurd (by rw [← List.nil_append last, ← hbetween]; simp) hlast
    | cons d between =>
      obtain ⟨rfl, -⟩ := List.cons.inj hbetween
      exact ⟨between, rfl⟩

theorem EndsAs.exists_text (h : EndsAs quote body s) :
    ∃ last, s.text = body ++ last ∧ ∀ d ∈ last, d = quote ∨ d = '\\' := by
  cases h with
  | closed => exact ⟨[quote], rfl, by simp⟩
  | line => exact ⟨[], (List.append_nil body).symm, by simp⟩
  | text => exact ⟨[], (List.append_nil body).symm, by simp⟩
  | backslash => exact ⟨['\\'], rfl, by simp⟩

theorem EndsAs.newline_head (h : EndsAs quote body s) (hclosed : s.closed = false) :
    s.rest = [] ∨ s.text = body ∧ ∃ post, s.rest = '\n' :: post := by
  cases h with
  | closed => contradiction
  | line => exact .inr ⟨rfl, _, rfl⟩
  | text => exact .inl rfl
  | backslash => exact .inl rfl

theorem endsWithLine (ht : t ∈ tokensFrom rule 0 1 cs) (hkind : t.kind.isInterpreted = true) :
    t.EndsWithLine cs := by
  obtain ⟨pre, rest, quote, body, s, hin, hbody, hends⟩ := exists_literalIn ht hkind
  refine ⟨?_, ?_⟩
  · intro front post hsplit
    rw [hin.text] at hsplit
    cases front with
    | nil => exact absurd (List.cons.inj hsplit).1 hin.ne_newline
    | cons d front =>
      obtain ⟨rfl, htail⟩ := List.cons.inj hsplit
      obtain ⟨last, htext, hlast⟩ := hends.exists_text
      rw [htext] at htail
      have hnot : '\n' ∉ last := by
        intro hmem
        rcases hlast _ hmem with hquote | hbackslash
        · exact hin.ne_newline hquote.symm
        · exact absurd hbackslash (by decide)
      obtain ⟨more, hmore⟩ := exists_of_append_eq htail hnot
      rw [escapesNext_cons hin.ne_backslash]
      exact hbody.escapesNext_of_split hmore (.inr rfl) hin.ne_backslash
  · intro hclosed
    rw [hin.drop_stop, hin.text, escapesNext_cons hin.ne_backslash]
    refine (hends.newline_head (hin.closed ▸ hclosed)).imp_right ?_
    rintro ⟨rfl, hpost⟩
    exact ⟨hbody.escapesNext_eq, hpost⟩

theorem staysOnLine_iff (ht : t ∈ tokensFrom rule 0 1 cs) (hkind : t.kind.isInterpreted = true) :
    t.StaysOnLine cs ↔ ¬ ['\\', '\n'] <:+: t.text.toList := by
  constructor
  · intro h hback
    exact h.newline_not_mem (hback.subset (by simp))
  · intro hback
    have hnot : '\n' ∉ t.text.toList := by
      intro hmem
      obtain ⟨pre, post, hsplit⟩ := List.append_of_mem hmem
      have hescaped := (endsWithLine ht hkind).escaped pre post hsplit
      exact hback (hsplit ▸ infix_of_escapesNext hescaped '\n' post)
    refine ⟨hnot, fun hclosed => ?_⟩
    obtain ⟨pre, rest, quote, body, s, hin, -, hends⟩ := exists_literalIn ht hkind
    have htext : ∀ d ∈ s.text, (d != '\n') = true := by
      intro d hd
      rw [bne_iff_ne]
      rintro rfl
      exact hnot (hin.text ▸ List.mem_cons_of_mem quote hd)
    have hrest : s.rest.takeWhile (· != '\n') = [] := by
      rcases hends.newline_head (hin.closed ▸ hclosed) with hnil | ⟨-, post, hpost⟩
      · rw [hnil]
        rfl
      · rw [hpost]
        rfl
    rw [hin.drop_start, hin.append, List.takeWhile_append_of_pos htext, hrest, hin.start, hin.stop]
    simp only [List.append_nil]
    omega

/-! ## Import paths -/

structure Consumes (ts : List Token) (paths : List String) (after : List Token) : Prop where
  suffix : after <:+ ts
  written : ∀ path ∈ paths, ∃ t ∈ ts, t.isPath = true ∧ t.literalValue = path

namespace Consumes

theorem refl (ts : List Token) : Consumes ts [] ts :=
  ⟨List.suffix_refl ts, by simp⟩

theorem trans (h : Consumes ts paths next) (hmore : Consumes next others after) :
    Consumes ts (paths ++ others) after where
  suffix := hmore.suffix.trans h.suffix
  written := by
    intro path hpath
    rcases List.mem_append.1 hpath with hpath | hpath
    · exact h.written path hpath
    · obtain ⟨t, ht, hvalue⟩ := hmore.written path hpath
      exact ⟨t, h.suffix.subset ht, hvalue⟩

theorem cons (t : Token) (h : Consumes ts paths after) : Consumes (t :: ts) paths after :=
  have hfirst : Consumes (t :: ts) [] ts := ⟨List.suffix_cons t ts, by simp⟩
  hfirst.trans h

end Consumes

theorem SemicolonsThen.consumes (h : SemicolonsThen ts after) : Consumes ts [] after := by
  obtain ⟨ends, rfl, -, -⟩ := h
  exact ⟨List.suffix_append ends after, by simp⟩

theorem SpecThen.consumes (h : SpecThen ts path after) : Consumes ts [path] after := by
  have hpath : ∀ p : Token, p.isPath = true → Consumes (p :: after) [p.literalValue] after :=
    fun p hp => ⟨List.suffix_cons p after, by simpa using .inl hp⟩
  cases h with
  | plain hp => exact hpath _ hp
  | bound hbinding hp => exact (hpath _ hp).cons _

theorem MembersThen.consumes (h : MembersThen ts paths after) : Consumes ts paths after := by
  induction h with
  | nil => exact .refl _
  | cons first ends more ih => exact first.consumes.trans (ends.consumes.trans ih)

theorem DeclarationThen.consumes (h : DeclarationThen ts paths after) :
    Consumes ts paths after := by
  cases h with
  | single himport spec ends => exact (spec.consumes.trans ends.consumes).cons _
  | group himport hopening members hclosing ends =>
    have hgroup := members.consumes.trans (ends.consumes.cons _)
    rw [List.append_nil] at hgroup
    exact (hgroup.cons _).cons _

theorem DeclarationsThen.consumes (h : DeclarationsThen ts paths after) :
    Consumes ts paths after := by
  induction h with
  | nil => exact .refl _
  | cons first more ih => exact first.consumes.trans ih

theorem HasHead.consumes {h : Head} (hhead : HasHead ts h) :
    ∃ after, Consumes ts h.imports after := by
  cases hhead with
  | mk first more stop =>
    cases first with
    | mk hpackage hname ends => exact ⟨_, ((ends.consumes.trans more.consumes).cons _).cons _⟩

/-! ## The literals of a source text -/

theorem literalValue_of_closed (ht : t ∈ tokensFrom rule 0 1 cs)
    (hkind : t.kind.isInterpreted = true) (hclosed : t.closed = true) :
    ∃ quote, quote ≠ '\\' ∧ LiteralBody quote t.literalValue.toList := by
  obtain ⟨pre, rest, quote, body, s, hin, hbody, hends⟩ := exists_literalIn ht hkind
  have hspan : s.closed = true := hin.closed ▸ hclosed
  cases hends with
  | closed =>
    have hvalue : t.literalValue.toList = body := by simp [Token.literalValue, hin.text, hclosed]
    exact ⟨quote, hin.ne_backslash, hvalue ▸ hbody⟩
  | line => contradiction
  | text => contradiction
  | backslash => contradiction

theorem infix_literalValue (ht : t ∈ tokensFrom rule 0 1 cs) (hkind : t.kind.isInterpreted = true)
    (hclosed : t.closed = true) (hmem : '\n' ∈ t.literalValue.toList) :
    ['\\', '\n'] <:+: t.literalValue.toList := by
  obtain ⟨quote, hquote, hbody⟩ := literalValue_of_closed ht hkind hclosed
  obtain ⟨pre, post, hsplit⟩ := List.append_of_mem hmem
  rw [hsplit]
  exact infix_of_escapesNext (hbody.escapesNext_of_split hsplit (.inr rfl) hquote) '\n' post

/-- Interpreted literals end with their line, escaped line ends apart. One stays on its line exactly
if it holds no line end behind a backslash, and so all do in a text of which no line ends with a
backslash. Every import path is the value of a literal, and one between double quotes holds a line
end only behind a backslash. -/
theorem literals_end_with_line (source : String) :
    (∀ t ∈ tokens source, t.kind.isInterpreted = true → t.EndsWithLine source.toList ∧
        (t.StaysOnLine source.toList ↔ ¬ ['\\', '\n'] <:+: t.text.toList)) ∧
      (¬ ['\\', '\n'] <:+: source.toList →
        ∀ t ∈ tokens source, t.kind.isInterpreted = true → t.StaysOnLine source.toList) ∧
      ∀ h, head? source = some h → ∀ path ∈ h.imports, ∃ t ∈ tokens source, t.isPath = true ∧
        t.literalValue = path ∧
        (t.kind = .string → '\n' ∈ path.toList → ['\\', '\n'] <:+: path.toList) := by
  refine ⟨?_, ?_, ?_⟩
  · intro t ht hkind
    exact ⟨endsWithLine ht hkind, staysOnLine_iff ht hkind⟩
  · intro hsource t ht hkind
    obtain ⟨pre, rest, quote, body, s, hin, -, -⟩ := exists_literalIn ht hkind
    exact (staysOnLine_iff ht hkind).2 fun hback => hsource (hback.trans hin.isInfix)
  · intro h hread path hpath
    obtain ⟨after, hconsumes⟩ := (ofTokens?_iff.1 hread).consumes
    obtain ⟨t, ht, hvalue, rfl⟩ := hconsumes.written path hpath
    have htoken : t ∈ tokens source := (List.mem_filter.1 ht).1
    have hclosed : t.closed = true := (Bool.and_eq_true_iff.1 hvalue).2
    refine ⟨t, htoken, hvalue, rfl, fun hkind hmem => ?_⟩
    exact infix_literalValue htoken (by rw [hkind]; rfl) hclosed hmem

/-- A line end behind a backslash is part of an import path, and a rune with two backslashes at the
end of its line ends there. -/
theorem literals_end_with_line_escaped :
    (∃ t ∈ tokens "package p\nimport \"a\\\nb\"\n", t.isPath = true ∧ t.literalValue = "a\\\nb" ∧
        (t.kind = .string → '\n' ∈ "a\\\nb".toList → ['\\', '\n'] <:+: "a\\\nb".toList)) ∧
      (⟨.rune, "'\\\\", 0, 3, 1, false⟩ : Token).EndsWithLine "'\\\\\nx".toList := by
  have hpath := (literals_end_with_line "package p\nimport \"a\\\nb\"\n").2.2
    ⟨"p", 0, ["a\\\nb"]⟩ (by decide +kernel) "a\\\nb" (by decide)
  have hrune := (literals_end_with_line "'\\\\\nx").1
    ⟨.rune, "'\\\\", 0, 3, 1, false⟩ (by decide +kernel) rfl
  exact ⟨hpath, hrune.1⟩

/-- Not every literal stays on its line: an import path may go on behind a backslash at the end of
one. -/
theorem not_staysOnLine_escaped :
    ¬ ∀ source : String, ∀ t ∈ tokens source, t.kind.isInterpreted = true →
      t.StaysOnLine source.toList := by
  intro h
  have hstring := h "package p\nimport \"a\\\nb\"\n" ⟨.string, "\"a\\\nb\"", 17, 23, 2, true⟩
    (by decide +kernel) rfl
  exact hstring.newline_not_mem (by decide)

end ImportSurvey.Source
