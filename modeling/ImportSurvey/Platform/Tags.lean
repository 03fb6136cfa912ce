import ImportSurvey.NameSet
import ImportSurvey.Text.Blank
import ImportSurvey.Text.Numeral
import ImportSurvey.Text.Quoted
import ImportSurvey.Text.Word
/-!
# Build tags

The tags that are set when building for a platform with some Go release: the platform's own names
and what they imply, the compiler, one tag for each release up to the present one, and extra tags.
-/

namespace ImportSurvey.Platform

open Text

def knownSystems : List String :=
  ["aix", "android", "darwin", "dragonfly", "freebsd", "hurd", "illumos", "ios", "js", "linux",
    "nacl", "netbsd", "openbsd", "plan9", "solaris", "wasip1", "windows", "zos"]

def unixSystems : List String :=
  ["aix", "android", "darwin", "dragonfly", "freebsd", "hurd", "illumos", "ios", "linux",
    "netbsd", "openbsd", "solaris"]

def knownArchitectures : List String :=
  ["386", "amd64", "amd64p32", "arm", "arm64", "arm64be", "armbe", "loong64", "mips", "mips64",
    "mips64le", "mips64p32", "mips64p32le", "mipsle", "ppc", "ppc64", "ppc64le", "riscv",
    "riscv64", "s390", "s390x", "sparc", "sparc64", "wasm"]

def isSystem (name : String) : Bool :=
  knownSystems.contains name

def isArchitecture (name : String) : Bool :=
  knownArchitectures.contains name

/-- The other system whose tag a system sets too. -/
def impliedSystem? : String → Option String
  | "android" => some "linux"
  | "illumos" => some "solaris"
  | "ios" => some "darwin"
  | _ => none

structure BadVersion where
  text : String
deriving DecidableEq, Repr

def BadVersion.message (e : BadVersion) : String :=
  "Unrecognized Go version: " ++ quoted e.text

def isNumber (cs : List Char) : Bool :=
  !cs.isEmpty && cs.all isDecimal

/-- The minor number of a release written `1.N`, with or without `go` in front and a patch number
behind. -/
def minorVersion? (cs : List Char) : Option Nat :=
  let plain := (['g', 'o'].isPrefixOf? cs).getD cs
  match ['1', '.'].isPrefixOf? plain with
  | none => none
  | some rest =>
    match rest.splitOn '.' with
    | [minor] => if isNumber minor then some (naturalOf minor) else none
    | [minor, patch] => if isNumber minor && isNumber patch then some (naturalOf minor) else none
    | _ => none

def releaseTag (minor : Nat) : String :=
  "go1." ++ toString minor

/-- The tags of all releases up to the one named, the first release first. -/
def releaseTags (version : String) : Except BadVersion (List String) :=
  match minorVersion? (trim version.toList) with
  | some minor => .ok ((List.range' 1 minor).map releaseTag)
  | none => .error ⟨version⟩

/-- What a build is made for. -/
structure Target where
  system : String := "linux"
  architecture : String := "amd64"
  version : String := "1.22"
  cgo : Bool := true
  compiler : String := "gc"
deriving DecidableEq, Repr

/-- The extra tags that are not blank, without the blanks around them. -/
def usableTags (extra : List String) : List String :=
  (extra.map trimmed).filter (· ≠ "")

def Target.tagList (t : Target) (releases extra : List String) : List String :=
  [t.system, t.architecture, t.compiler] ++ releases ++ (impliedSystem? t.system).toList ++
    (if unixSystems.contains t.system then ["unix"] else []) ++
    (if t.cgo then ["cgo"] else []) ++ usableTags extra

/-- The tags set when building for a target, with some extra tags. -/
def Target.tags (t : Target) (extra : List String) : Except BadVersion NameSet :=
  (releaseTags t.version).map fun releases => NameSet.ofList (t.tagList releases extra)

/-- Cuts a list of tags at its commas and blanks. -/
def splitTags (raw : String) : List String :=
  ((raw.toList.splitOnP fun c => c == ',' || isBlank c).filter (!·.isEmpty)).map String.ofList

end ImportSurvey.Platform
