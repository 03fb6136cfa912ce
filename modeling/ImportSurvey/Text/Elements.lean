/-!
# Paths as elements

The elements of a path between its slashes. A path covers itself and every path that continues it by
whole elements.
-/

namespace ImportSurvey.Text

def elements (path : String) : List String :=
  (path.toList.splitOn '/').map String.ofList

def joinElements (es : List String) : String :=
  "/".intercalate es

/-- Whether `path` is `root`, or `root` and further elements. -/
def covers (root path : String) : Bool :=
  (elements root).isPrefixOf (elements path)

@[simp] theorem covers_self (path : String) : covers path path = true := by
  simp [covers]

theorem covers_trans {a b c : String} (hab : covers a b = true) (hbc : covers b c = true) :
    covers a c = true := by
  simp only [covers, List.isPrefixOf_iff_prefix] at *
  exact hab.trans hbc

end ImportSurvey.Text
