import ImportSurvey.Json.Value
import ImportSurvey.Remark
import ImportSurvey.Survey
/-!
# Reports

Results as JSON, names and paths in ascending order throughout, and the remarks that a survey gives
rise to.
-/

namespace ImportSurvey

def NameSet.toJson (s : NameSet) : Json :=
  .ofTexts s.names

/-- A list of texts in ascending order. -/
def sortedTexts (xs : List String) : Json :=
  .ofTexts (xs.mergeSort (· ≤ ·))

/-- The members whose value is present. -/
def presentMembers (members : List (String × Option String)) : List (String × Json) :=
  members.filterMap fun (key, value) => value.map fun s => (key, .str s)

def Dependency.toJson (d : Dependency) : Json :=
  .obj ([("name", .str d.name), ("kind", .str d.kind.name), ("packages", d.packages.toJson)] ++
    presentMembers [("version", d.version), ("url", d.url), ("commit", d.commit), ("tag", d.tag)])

def Node.toJson (n : Node) : Json :=
  .obj [("imports", n.imports.toJson), ("importers", n.importers.toJson),
    ("import_count", .ofNat n.imports.size), ("importer_count", .ofNat n.importers.size)]

/-- A table as an object, its keys in ascending order. -/
def Table.toJson {α : Type} (encode : α → Json) (t : Table String α) : Json :=
  .obj (t.sorted.map fun e => (e.1, encode e.2))

def Graph.toJson (g : Graph) : Json :=
  Table.toJson Node.toJson g

namespace Survey

def members (s : Survey) : List (String × Json) :=
  [("root", .str s.root),
    ("module_path", .ofText? s.modulePath),
    ("tags", s.tags.toJson),
    ("files_scanned", .ofNat s.files.length),
    ("included_files", sortedTexts s.included),
    ("excluded_files", Table.toJson (fun v => .str v.name) s.excluded),
    ("invalid_files", Table.toJson .str s.invalid),
    ("unreadable_files", sortedTexts s.unreadable),
    ("imports", Table.toJson NameSet.toJson s.imports),
    ("dependencies", .arr (s.dependencies.sorted.map fun e => e.2.toJson)),
    ("graph", s.graph.toJson)]

def toJson (s : Survey) : Json :=
  .obj s.members

/-! ## Remarks -/

/-- What is to be said about directives that hold no formula. -/
def malformedRemarks (source : String) : List Remark :=
  (Constraint.malformedDirectives source).map fun (d, why) => .malformedDirective d.text why

def fileRemarks (tags : NameSet) (f : SurveyedFile) : List Remark :=
  match f.text with
  | none => [.skippedFile f.path]
  | some source =>
    (if Platform.nameAllows (fileNameOf f.path) tags then malformedRemarks source else []) ++
      (f.fate.error?.map fun e => Remark.invalidConstraint f.path e.message).toList

def remarks (s : Survey) : List Remark :=
  .scanning s.files.length s.root :: s.files.flatMap (fileRemarks s.tags) ++
    s.dependencies.map (fun e =>
      .resolved e.1 e.2.kind ((e.2.packages.names.head?).getD "")) ++
    (if s.invalid.isEmpty then [] else [.invalidFiles s.invalid.length])

end Survey

end ImportSurvey
