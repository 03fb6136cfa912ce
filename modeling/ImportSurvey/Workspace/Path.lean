import ImportSurvey.Text.Elements
/-!
# File paths

A path as written keeps its parts, parent steps included, but no empty parts and no single dots. A
location is where an absolute path leads when parent steps are taken by name alone: the names on the
way from the top.
-/

namespace ImportSurvey.Workspace

open Text

/-- What a path starts from. Exactly two slashes in front are kept apart from one. -/
inductive Anchor
  | none
  | root
  | doubleRoot
deriving DecidableEq, Repr

structure Path where
  anchor : Anchor := .none
  parts : List String := []
deriving DecidableEq, Repr

abbrev Location := List String

def Anchor.text : Anchor → String
  | none => ""
  | root => "/"
  | doubleRoot => "//"

namespace Path

def anchorOf (cs : List Char) : Anchor :=
  match (cs.takeWhile (· == '/')).length with
  | 0 => .none
  | 2 => .doubleRoot
  | _ => .root

def parse (s : String) : Path :=
  ⟨anchorOf s.toList, (elements s).filter fun e => e != "" && e != "."⟩

def isAbsolute (p : Path) : Bool :=
  p.anchor != .none

def text (p : Path) : String :=
  if p.anchor = .none && p.parts.isEmpty then "." else p.anchor.text ++ joinElements p.parts

/-- The anchor, if there is one, and the parts. -/
def components (p : Path) : List String :=
  (if p.isAbsolute then [p.anchor.text] else []) ++ p.parts

/-- The path `p` as seen from `base`. -/
def join (base p : Path) : Path :=
  if p.isAbsolute then p else ⟨base.anchor, base.parts ++ p.parts⟩

def ofLocation (l : Location) : Path :=
  ⟨.root, l⟩

/-- One part further; a parent step at the top stays there. -/
def step (l : Location) (part : String) : Location :=
  if part = ".." then l.dropLast else l ++ [part]

/-- Where a path leads, seen from a location. -/
def location (home : Location) (p : Path) : Location :=
  p.parts.foldl step (if p.isAbsolute then [] else home)

end Path

/-- The way from the location `start` to the location `target`. -/
def wayTo : (start target : Location) → List String
  | s :: ss, t :: ts =>
    if s = t then wayTo ss ts else List.replicate (ss.length + 1) ".." ++ t :: ts
  | ss, ts => List.replicate ss.length ".." ++ ts

/-- A way as text, a single dot for staying. -/
def wayText (way : List String) : String :=
  if way.isEmpty then "." else joinElements way

def forwardSlashes (s : String) : String :=
  String.ofList (s.toList.map fun c => if c == '\\' then '/' else c)

/-- The text of the way from `start` to `target`, with forward slashes throughout. -/
def relativeText (start target : Location) : String :=
  forwardSlashes (wayText (wayTo start target))

end ImportSurvey.Workspace
