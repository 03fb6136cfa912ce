import ImportSurvey.Proofs.Constraint.Conjunction
import ImportSurvey.Proofs.Source.ClauseLine
/-!
# The verdict before the package clause

Directives count only before the first token with syntax, and where that is a package clause on a
line of its own, everything before it is settled by then. So no text behind the clause changes which
directives count, or what they say.
-/

namespace ImportSurvey.Constraint

open Source

/-- Whatever follows a package clause on a line of its own, the directives of the file, the place of
its clause and its verdict under any tags, errors included, are the same. -/
theorem evaluate_before_clause (l : ClauseLine) (pre post post' : String)
    (hpre : WholeLines pre.toList)
    (hfirst : FirstAt (l.offset pre) (tokens (l.within pre post))) :
    FirstAt (l.offset pre) (tokens (l.within pre post')) ∧
      directives (l.within pre post) = directives (l.within pre post') ∧
      clauseOffset? (l.within pre post) = some (l.offset pre) ∧
      clauseOffset? (l.within pre post') = some (l.offset pre) ∧
      ∀ tags, evaluate (l.within pre post) tags = evaluate (l.within pre post') tags := by
  obtain ⟨lead, hlead, htokens⟩ := tokens_within l hpre hfirst
  have hdirectives : ∀ post, directives (l.within pre post) = directivesOf lead := by
    intro post
    obtain ⟨line, place, line', more, h⟩ := htokens post
    rw [directives, h, directivesOf_append hlead rfl]
  have hoffset : ∀ post, clauseOffset? (l.within pre post) = some (l.offset pre) := by
    intro post
    obtain ⟨line, place, line', more, h⟩ := htokens post
    exact clauseOffset?_of_tokens hlead h
  refine ⟨?_, ?_, hoffset post, hoffset post', fun tags => ?_⟩
  · obtain ⟨line, place, line', more, h⟩ := htokens post'
    rw [h, firstAt_append hlead, firstAt_cons_of_significant rfl]
    rfl
  · rw [hdirectives, hdirectives]
  · rw [evaluate_eq, evaluate_eq, hdirectives, hdirectives]

theorem evaluate_before_clause_open_directive :
    evaluate "// +build linux /* note\npackage p\n" ∅ =
      evaluate "// +build linux /* note\npackage p\n// +build */ windows\n" ∅ := by
  have h := evaluate_before_clause ⟨[], [' '], ⟨⟨'p', [], by decide, by simp⟩, by decide⟩, [],
      by simp, by simp [isInlineSpace], by simp, by simp⟩
    "// +build linux /* note\n" "" "// +build */ windows\n" (by simp [WholeLines])
    ⟨⟨.ident, "package", 24, 31, 2, true⟩, by decide +kernel, rfl⟩
  exact h.2.2.2.2 ∅

end ImportSurvey.Constraint
