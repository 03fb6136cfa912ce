import ImportSurvey.Graph
import ImportSurvey.Proofs.Table
/-!
# What a graph shows of its edges

A graph is filled one import at a time. Each step adds one edge to both its ends, and an import of
itself adds none, so in the whole graph a name stands among the imports of another exactly if the
other imports it and is not the same.
-/

namespace ImportSurvey.Graph

variable {g : Graph} {a b k importer imported : String}

def importsOf (g : Graph) (name : String) : NameSet :=
  ((g.get? name).getD {}).imports

def importersOf (g : Graph) (name : String) : NameSet :=
  ((g.get? name).getD {}).importers

theorem mem_importsOf_iff :
    b ∈ importsOf g a ↔ ∃ node, g.get? a = some node ∧ b ∈ node.imports := by
  rw [importsOf]
  cases g.get? a with
  | none => simp
  | some node => simp

theorem mem_importersOf_iff :
    a ∈ importersOf g b ↔ ∃ node, g.get? b = some node ∧ a ∈ node.importers := by
  rw [importersOf]
  cases g.get? b with
  | none => simp
  | some node => simp

theorem importersOf_eq {node : Node} (h : g.get? a = some node) :
    importersOf g a = node.importers := by
  rw [importersOf, h, Option.getD_some]

def addRow (g : Graph) (row : String × List String) : Graph :=
  row.2.foldl (addImport row.1) (g.addNode row.1)

def ofRows (rows : List (String × List String)) : Graph :=
  rows.foldl addRow []

/-- A row has an importer import a name other than its own. -/
def Joins (rows : List (String × List String)) (importer imported : String) : Prop :=
  imported ≠ importer ∧ ∃ targets, (importer, targets) ∈ rows ∧ imported ∈ targets

/-! ## One step -/

theorem get?_addNode (g : Graph) (name : String) :
    ((g.addNode name).get? a).getD {} = (g.get? a).getD {} := by
  rw [addNode, Table.get?_update]
  by_cases h : a = name
  · rw [if_pos h, h, Option.getD_some, id]
  · rw [if_neg h]

theorem mem_keys_addNode (g : Graph) (name : String) :
    k ∈ (g.addNode name).keys ↔ k = name ∨ k ∈ g.keys :=
  Table.mem_keys_update g name k {} id

theorem addImport_self (g : Graph) (name : String) : addImport name g name = g := by
  rw [addImport, if_pos rfl]

theorem mem_keys_addImport (h : imported ≠ importer) (g : Graph) :
    k ∈ (addImport importer g imported).keys ↔ k = imported ∨ k = importer ∨ k ∈ g.keys := by
  rw [addImport, if_neg h, Table.mem_keys_update, Table.mem_keys_update]

/-- What an import makes of a node. -/
theorem get?_addImport (h : imported ≠ importer) (g : Graph) :
    ((addImport importer g imported).get? a).getD {} =
      if a = imported then
        { (g.get? a).getD {} with importers := ((g.get? a).getD {}).importers.insert importer }
      else if a = importer then
        { (g.get? a).getD {} with imports := ((g.get? a).getD {}).imports.insert imported }
      else (g.get? a).getD {} := by
  rw [addImport, if_neg h, Table.get?_update, Table.get?_update, Table.get?_update, if_neg h]
  by_cases hb : a = imported
  · rw [if_pos hb, if_pos hb, Option.getD_some, hb]
  · rw [if_neg hb, if_neg hb]
    by_cases ha : a = importer
    · rw [if_pos ha, if_pos ha, Option.getD_some, ha]
    · rw [if_neg ha, if_neg ha]

theorem mem_importsOf_addImport (g : Graph) :
    b ∈ importsOf (addImport importer g imported) a ↔
      b ∈ importsOf g a ∨ imported ≠ importer ∧ a = importer ∧ b = imported := by
  by_cases h : imported = importer
  · rw [h, addImport_self]
    simp
  · rw [importsOf, get?_addImport h, importsOf]
    by_cases hb : a = imported
    · simp [hb, h]
    · by_cases ha : a = importer
      · simp [ha, h, Ne.symm h, or_comm]
      · simp [hb, ha]

theorem mem_importersOf_addImport (g : Graph) :
    a ∈ importersOf (addImport importer g imported) b ↔
      a ∈ importersOf g b ∨ imported ≠ importer ∧ a = importer ∧ b = imported := by
  by_cases h : imported = importer
  · rw [h, addImport_self]
    simp
  · rw [importersOf, get?_addImport h, importersOf]
    by_cases hb : b = imported
    · simp [hb, h, or_comm]
    · by_cases ha : b = importer
      · simp [ha, Ne.symm h]
      · simp [hb, ha]

/-! ## Many steps -/

/-- A relation between names that nodes leave alone and each import adds its own two ends to. -/
structure GrowsByImports (view : Graph → String → String → Prop) : Prop where
  addNode : ∀ g name a b, view (g.addNode name) a b ↔ view g a b
  addImport : ∀ g importer imported a b, view (addImport importer g imported) a b ↔
    view g a b ∨ imported ≠ importer ∧ a = importer ∧ b = imported

theorem growsByImports_importsOf : GrowsByImports fun g a b => b ∈ importsOf g a where
  addNode g name a b := by rw [importsOf, get?_addNode, importsOf]
  addImport g _ _ _ _ := mem_importsOf_addImport g

theorem growsByImports_importersOf : GrowsByImports fun g a b => a ∈ importersOf g b where
  addNode g name a b := by rw [importersOf, get?_addNode, importersOf]
  addImport g _ _ _ _ := mem_importersOf_addImport g

section Views

variable {view : Graph → String → String → Prop} (hview : GrowsByImports view)

include hview

private theorem view_foldl_addImport (names : List String) :
    view (names.foldl (addImport importer) g) a b ↔
      view g a b ∨ a = importer ∧ b ∈ names ∧ b ≠ a := by
  induction names generalizing g with
  | nil => simp
  | cons name names ih =>
    rw [List.foldl_cons, ih, hview.addImport, List.mem_cons]
    constructor
    · rintro ((h | ⟨hne, rfl, rfl⟩) | ⟨rfl, hmem, hne⟩)
      · exact Or.inl h
      · exact Or.inr ⟨rfl, Or.inl rfl, hne⟩
      · exact Or.inr ⟨rfl, Or.inr hmem, hne⟩
    · rintro (h | ⟨rfl, rfl | hmem, hne⟩)
      · exact Or.inl (Or.inl h)
      · exact Or.inl (Or.inr ⟨hne, rfl, rfl⟩)
      · exact Or.inr ⟨rfl, hmem, hne⟩

private theorem view_foldl_addRow (rows : List (String × List String)) :
    view (rows.foldl addRow g) a b ↔ view g a b ∨ Joins rows a b := by
  induction rows generalizing g with
  | nil => simp [Joins]
  | cons row rows ih =>
    rw [List.foldl_cons, ih, addRow, view_foldl_addImport hview, hview.addNode]
    constructor
    · rintro ((h | ⟨rfl, hmem, hne⟩) | ⟨hne, targets, hrow, hmem⟩)
      · exact Or.inl h
      · exact Or.inr ⟨hne, row.2, List.mem_cons_self, hmem⟩
      · exact Or.inr ⟨hne, targets, List.mem_cons_of_mem row hrow, hmem⟩
    · rintro (h | ⟨hne, targets, hrow, hmem⟩)
      · exact Or.inl (Or.inl h)
      · rcases List.mem_cons.1 hrow with rfl | hrow
        · exact Or.inl (Or.inr ⟨rfl, hmem, hne⟩)
        · exact Or.inr ⟨hne, targets, hrow, hmem⟩

end Views

private theorem mem_keys_foldl_addImport (names : List String) (h : importer ∈ g.keys) :
    k ∈ (names.foldl (addImport importer) g).keys ↔
      k ∈ g.keys ∨ k ∈ names ∧ k ≠ importer := by
  induction names generalizing g with
  | nil => simp
  | cons name names ih =>
    rw [List.foldl_cons]
    by_cases hself : name = importer
    · rw [hself, addImport_self, ih h, List.mem_cons]
      constructor
      · rintro (hk | ⟨hmem, hne⟩)
        · exact Or.inl hk
        · exact Or.inr ⟨Or.inr hmem, hne⟩
      · rintro (hk | ⟨hmem, hne⟩)
        · exact Or.inl hk
        · exact Or.inr ⟨hmem.resolve_left hne, hne⟩
    · have hkeys : ∀ k, k ∈ (addImport importer g name).keys ↔
          k = name ∨ k = importer ∨ k ∈ g.keys := fun k => mem_keys_addImport hself g
      rw [ih ((hkeys importer).2 (Or.inr (Or.inr h))), hkeys, List.mem_cons]
      constructor
      · rintro ((rfl | rfl | hk) | ⟨hmem, hne⟩)
        · exact Or.inr ⟨Or.inl rfl, hself⟩
        · exact Or.inl h
        · exact Or.inl hk
        · exact Or.inr ⟨Or.inr hmem, hne⟩
      · rintro (hk | ⟨rfl | hmem, hne⟩)
        · exact Or.inl (Or.inr (Or.inr hk))
        · exact Or.inl (Or.inl rfl)
        · exact Or.inr ⟨hmem, hne⟩

private theorem mem_keys_foldl_addRow (rows : List (String × List String)) :
    k ∈ (rows.foldl addRow g).keys ↔
      k ∈ g.keys ∨ k ∈ rows.map Prod.fst ∨ ∃ row ∈ rows, k ∈ row.2 ∧ k ≠ row.1 := by
  induction rows generalizing g with
  | nil => simp
  | cons row rows ih =>
    have hself : row.1 ∈ (g.addNode row.1).keys := (mem_keys_addNode g row.1).2 (Or.inl rfl)
    rw [List.foldl_cons, ih, addRow, mem_keys_foldl_addImport _ hself, mem_keys_addNode,
      List.map_cons, List.mem_cons, List.exists_mem_cons_iff]
    constructor
    · rintro (((h | h) | h) | h | h)
      · exact Or.inr (Or.inl (Or.inl h))
      · exact Or.inl h
      · exact Or.inr (Or.inr (Or.inl h))
      · exact Or.inr (Or.inl (Or.inr h))
      · exact Or.inr (Or.inr (Or.inr h))
    · rintro (h | (h | h) | h | h)
      · exact Or.inl (Or.inl (Or.inr h))
      · exact Or.inl (Or.inl (Or.inl h))
      · exact Or.inr (Or.inl h)
      · exact Or.inl (Or.inr h)
      · exact Or.inr (Or.inr h)

private theorem nodup_keys_addImport (h : g.keys.Nodup) (importer imported : String) :
    (addImport importer g imported).keys.Nodup := by
  by_cases hself : imported = importer
  · rwa [hself, addImport_self]
  · rw [addImport, if_neg hself]
    exact Table.nodup_keys_update (Table.nodup_keys_update h _ _ _) _ _ _

private theorem nodup_keys_addRow (h : g.keys.Nodup) (row : String × List String) :
    (addRow g row).keys.Nodup := by
  apply List.foldlRecOn (motive := fun g => (Table.keys g).Nodup)
  · exact Table.nodup_keys_update h row.1 {} id
  · intro g hg imported _
    exact nodup_keys_addImport hg row.1 imported

/-! ## The whole graph -/

section Rows

variable {rows : List (String × List String)}

theorem nodup_keys_ofRows (rows : List (String × List String)) : (ofRows rows).keys.Nodup := by
  apply List.foldlRecOn (motive := fun g => (Table.keys g).Nodup)
  · exact List.nodup_nil
  · intro g hg row _
    exact nodup_keys_addRow hg row

theorem mem_keys_ofRows :
    k ∈ (ofRows rows).keys ↔ k ∈ rows.map Prod.fst ∨ ∃ a, Joins rows a k := by
  rw [ofRows, mem_keys_foldl_addRow]
  simp only [Table.keys, List.map_nil, List.not_mem_nil, false_or]
  apply or_congr_right
  constructor
  · rintro ⟨row, hrow, hmem, hne⟩
    exact ⟨row.1, hne, row.2, hrow, hmem⟩
  · rintro ⟨a, hne, targets, hrow, hmem⟩
    exact ⟨(a, targets), hrow, hmem, hne⟩

theorem mem_importsOf_ofRows : b ∈ importsOf (ofRows rows) a ↔ Joins rows a b := by
  have hempty : b ∉ importsOf [] a := NameSet.not_mem_empty b
  rw [ofRows, view_foldl_addRow growsByImports_importsOf]
  exact or_iff_right hempty

theorem mem_importersOf_ofRows : a ∈ importersOf (ofRows rows) b ↔ Joins rows a b := by
  have hempty : a ∉ importersOf [] b := NameSet.not_mem_empty a
  rw [ofRows, view_foldl_addRow growsByImports_importersOf]
  exact or_iff_right hempty

end Rows

section Edges

variable {edges : Table String NameSet}

/-- A table of edges is drawn row by row, each row in ascending order. -/
theorem ofImports_eq_ofRows (edges : Table String NameSet) :
    ofImports edges = ofRows (edges.map fun e => (e.1, e.2.names)) := by
  rw [ofRows, List.foldl_map]
  rfl

theorem joins_edges_iff :
    Joins (edges.map fun e => (e.1, e.2.names)) a b ↔
      b ≠ a ∧ ∃ targets, (a, targets) ∈ edges ∧ b ∈ targets := by
  apply and_congr_right
  rintro -
  constructor
  · rintro ⟨names, hrow, hmem⟩
    obtain ⟨e, he, heq⟩ := List.mem_map.1 hrow
    obtain ⟨rfl, rfl⟩ := Prod.mk.inj heq
    exact ⟨e.2, he, hmem⟩
  · rintro ⟨targets, hedge, hmem⟩
    exact ⟨targets.names, List.mem_map.2 ⟨_, hedge, rfl⟩, hmem⟩

theorem mem_keys_ofImports :
    k ∈ (ofImports edges).keys ↔ k ∈ edges.keys ∨ ∃ e ∈ edges, k ∈ e.2 ∧ k ≠ e.1 := by
  have hkeys : (edges.map fun e => (e.1, e.2.names)).map Prod.fst = edges.keys := by
    simp [Table.keys]
  rw [ofImports_eq_ofRows, mem_keys_ofRows, hkeys]
  apply or_congr_right
  simp only [joins_edges_iff]
  constructor
  · rintro ⟨a, hne, targets, hedge, hmem⟩
    exact ⟨(a, targets), hedge, hmem, hne⟩
  · rintro ⟨e, he, hmem, hne⟩
    exact ⟨e.1, hne, e.2, he, hmem⟩

theorem mem_importsOf_ofImports :
    b ∈ importsOf (ofImports edges) a ↔
      b ≠ a ∧ ∃ targets, (a, targets) ∈ edges ∧ b ∈ targets := by
  rw [ofImports_eq_ofRows, mem_importsOf_ofRows, joins_edges_iff]

theorem mem_importersOf_ofImports :
    a ∈ importersOf (ofImports edges) b ↔
      b ≠ a ∧ ∃ targets, (a, targets) ∈ edges ∧ b ∈ targets := by
  rw [ofImports_eq_ofRows, mem_importersOf_ofRows, joins_edges_iff]

end Edges

end ImportSurvey.Graph
