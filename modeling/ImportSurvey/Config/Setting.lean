import ImportSurvey.Json.Value
import ImportSurvey.Platform.Tags
/-!
# Settings

The settings that a configuration knows, with the shape of their values, the value each has when
nothing is configured, and a line that describes it.
-/

namespace ImportSurvey.Config

inductive Setting
  | buildTags
  | system
  | architecture
  | goVersion
  | cgoEnabled
  | includeTests
  | exclude
  | modulePath
  | dependencies
  | scanWorkers
deriving DecidableEq, Repr

inductive Shape
  | list
  | text
  | flag
  | table
  | number
deriving DecidableEq, Repr

def Shape.fits : Shape → Json → Bool
  | list, .arr _ => true
  | text, .str _ => true
  | flag, .bool _ => true
  | table, .obj _ => true
  | number, .int _ => true
  | _, _ => false

namespace Setting

/-- All settings, in the order in which they are shown and filled in. -/
def all : List Setting :=
  [buildTags, system, architecture, goVersion, cgoEnabled, includeTests, exclude, modulePath,
    dependencies, scanWorkers]

def key : Setting → String
  | buildTags => "build_tags"
  | system => "goos"
  | architecture => "goarch"
  | goVersion => "go_version"
  | cgoEnabled => "cgo_enabled"
  | includeTests => "include_tests"
  | exclude => "exclude"
  | modulePath => "module_path"
  | dependencies => "dependencies"
  | scanWorkers => "scan_workers"

def shape : Setting → Shape
  | buildTags | exclude => .list
  | system | architecture | goVersion | modulePath => .text
  | cgoEnabled | includeTests => .flag
  | dependencies => .table
  | scanWorkers => .number

def default : Setting → Json
  | buildTags | exclude => .arr []
  | system => .str "linux"
  | architecture => .str "amd64"
  | goVersion => .str "1.22"
  | cgoEnabled => .bool true
  | includeTests => .bool false
  | modulePath => .str ""
  | dependencies => .obj []
  | scanWorkers => .int 8

def description : Setting → String
  | buildTags => "Extra build tags treated as set (like go build -tags)"
  | system => "Target operating system tag"
  | architecture => "Target architecture tag"
  | goVersion => "Go release whose go1.N tags are satisfied"
  | cgoEnabled => "Whether the cgo tag is satisfied"
  | includeTests => "Scan _test.go files as well"
  | exclude => "Path patterns to exclude from scanning"
  | modulePath => "Module import path of the project (empty = read go.mod)"
  | dependencies => "Pinned dependencies \x7broot: \x7burl, commit, tag, branch\x7d\x7d"
  | scanWorkers => "Worker threads used to scan files (1 = serial)"

def ofKey? (key : String) : Option Setting :=
  all.find? (·.key == key)

@[simp] theorem ofKey?_key (s : Setting) : ofKey? s.key = some s := by
  cases s <;> decide

theorem fits_default (s : Setting) : s.shape.fits s.default = true := by
  cases s <;> rfl

theorem mem_all (s : Setting) : s ∈ all := by
  cases s <;> decide

end Setting

end ImportSurvey.Config
