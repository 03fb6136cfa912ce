import ImportSurvey.Terminal.Color
import ImportSurvey.Text.Blank
/-!
# Text tables

Rows of cells under headers, in columns as wide as their widest cell and two blanks apart. The last
column is free text. A row that lacks a column, or a table without columns, cannot be laid out.
-/

namespace ImportSurvey.Terminal

open Text

/-- A row or the headers have too few cells. -/
inductive GridError
  | missingCell
deriving DecidableEq, Repr

def GridError.message : GridError → String
  | missingCell => "list index out of range"

def padded (cell : String) (width : Nat) : String :=
  cell ++ String.ofList (List.replicate (width - cell.length) ' ')

/-- The width of column `i`, if every row has it. -/
def columnWidth? (rows : List (List String)) (header : String) (i : Nat) : Option Nat :=
  (rows.mapM (·[i]?)).map fun column => (column.map String.length).foldl max header.length

/-- The widths of all columns but the last. -/
def columnWidths? (headers : List String) (rows : List (List String)) : Option (List Nat) :=
  headers.dropLast.zipIdx.mapM fun (header, i) => columnWidth? rows header i

def gridLine? (widths : List Nat) (cells : List String) : Option String :=
  cells.getLast?.map fun last =>
    let line := "  ".intercalate (cells.zipWith padded widths ++ [last])
    String.ofList (trimRight line.toList)

/-- The lines of a table with headers and a rule below them; none if there are no rows. -/
def gridLines (o : Output) (headers : List String) (rows : List (List String)) :
    Except GridError (List String) :=
  if rows.isEmpty then .ok []
  else
    let lines? := do
      let widths ← columnWidths? headers rows
      let title ← gridLine? widths headers
      let body ← rows.mapM (gridLine? widths)
      let rule := String.ofList (List.replicate title.length '-')
      return colorize o title "bold" :: colorize o rule "dim" :: body
    match lines? with
    | some lines => .ok lines
    | none => .error .missingCell

end ImportSurvey.Terminal
