import ImportSurvey.NameSet
import ImportSurvey.Table
/-!
# Import graphs

Nodes with the names they import and the names that import them. A name that imports itself has no
edge for that.
-/

namespace ImportSurvey

structure Node where
  imports : NameSet := ∅
  importers : NameSet := ∅
deriving DecidableEq

abbrev Graph := Table String Node

namespace Graph

def addNode (g : Graph) (name : String) : Graph :=
  g.update name {} id

/-- Adds both ends of an import. -/
def addImport (importer : String) (g : Graph) (imported : String) : Graph :=
  if imported = importer then g
  else
    (g.update importer {} fun n => { n with imports := n.imports.insert imported }).update
      imported {} fun n => { n with importers := n.importers.insert importer }

def addImporter (g : Graph) (importer : String) (imported : NameSet) : Graph :=
  imported.names.foldl (addImport importer) (g.addNode importer)

/-- The graph of a table that lists what each importer imports. -/
def ofImports (edges : Table String NameSet) : Graph :=
  edges.foldl (fun g e => g.addImporter e.1 e.2) []

end Graph

end ImportSurvey
