import ImportSurvey.Text.Blank
import ImportSurvey.Text.Cut
import ImportSurvey.Workspace.Tree
/-!
# The module file

The module path that a project declares: what follows the word `module` on the first line where that
word comes first and something follows it, with or without double quotes.
-/

namespace ImportSurvey.Workspace

open Text

def isBareChar (c : Char) : Bool :=
  c != '\x22' && !isBlank c

/-- The path behind the word `module`, blanks before the word and line ends behind it allowed. -/
def declaration? (cs : List Char) : Option (List Char) :=
  match "module".toList.isPrefixOf? (trimLeft cs) with
  | none => none
  | some rest =>
    let body := trimLeft rest
    let bare := (['\x22'].isPrefixOf? body).getD body
    match rest.head?.any isBlank, bare.takeWhile isBareChar with
    | false, _ => none
    | true, [] => none
    | true, path => some path

/-- The first declaration that begins at a line's beginning, `lineStart` telling whether `cs` does. -/
def firstDeclaration? (lineStart : Bool) : List Char → Option (List Char)
  | [] => none
  | c :: cs =>
    ((if lineStart then declaration? (c :: cs) else none)).or (firstDeclaration? (c == '\n') cs)

/-- The module path that the text of a module file declares. -/
def declaredModule? (text : String) : Option String :=
  (firstDeclaration? true text.toList).map String.ofList

/-- The module path that a directory's module file declares. -/
def modulePath? (top : Directory) (directory : Path) : Option String :=
  (top.text? (directory.join (Path.parse "go.mod"))).bind declaredModule?

end ImportSurvey.Workspace
