import ImportSurvey.Proofs.Graph
import ImportSurvey.Report
import Mathlib.Combinatorics.Enumerative.DoubleCounting
/-!
# A graph and the edges that it is made of

A graph tells of each edge at both its ends. So it holds exactly the edges that it was made of,
those from a name to itself apart, its counts add up to the same number on both sides, and the order
in which importers and what they import were added leaves no trace.
-/

namespace ImportSurvey

namespace NameSet

variable {s : NameSet} {names : List String}

private theorem nodup_names (s : NameSet) : s.names.Nodup :=
  s.ascending.imp fun {a b} hab => by
    rintro rfl
    exact String.lt_irrefl a hab

private theorem size_eq_length (hnodup : names.Nodup) (h : ∀ a, a ∈ s ↔ a ∈ names) :
    s.size = names.length :=
  ((List.perm_ext_iff_of_nodup s.nodup_names hnodup).2 h).length_eq

end NameSet

namespace Graph

open Finset

variable {g : Graph} {edges : Table String NameSet} {rows others : List (String × List String)}
  {a b k : String} {node : Node}

theorem importsOf_eq (h : g.get? a = some node) : importsOf g a = node.imports := by
  rw [importsOf, h, Option.getD_some]

/-! ## Counts on both sides -/

def IsSymmetric (g : Graph) : Prop :=
  ∀ a b, a ∈ importersOf g b ↔ b ∈ importsOf g a

theorem mem_keys_of_mem_importsOf (h : b ∈ importsOf g a) : a ∈ g.keys := by
  obtain ⟨node, hget, -⟩ := mem_importsOf_iff.1 h
  exact Table.mem_keys_iff.2 ⟨node, hget⟩

theorem mem_keys_of_mem_importersOf (h : a ∈ importersOf g b) : b ∈ g.keys := by
  obtain ⟨node, hget, -⟩ := mem_importersOf_iff.1 h
  exact Table.mem_keys_iff.2 ⟨node, hget⟩

private theorem sum_map_eq_sum_keys (h : g.keys.Nodup) (f : Node → Nat) :
    (g.map fun e => f e.2).sum = ∑ k ∈ g.keys.toFinset, f ((g.get? k).getD {}) := by
  rw [List.sum_toFinset _ h, Table.keys, List.map_map]
  congr 1
  apply List.map_congr_left
  intro e he
  have hget : g.get? e.1 = some e.2 := (Table.get?_eq_some_iff h).2 he
  rw [Function.comp_apply, hget, Option.getD_some]

private theorem size_eq_card (s : NameSet) (keys : Finset String) (h : ∀ a ∈ s, a ∈ keys) :
    s.size = #{a ∈ keys | a ∈ s} := by
  have hnames : ({a ∈ keys | a ∈ s} : Finset String) = s.names.toFinset := by
    ext a
    rw [mem_filter, List.mem_toFinset]
    exact and_iff_right_of_imp (h a)
  rw [hnames, List.toFinset_card_of_nodup s.nodup_names, NameSet.size]

/-- Each edge is counted once at either end. -/
theorem sum_imports_eq_sum_importers (hkeys : g.keys.Nodup) (h : g.IsSymmetric) :
    (g.map fun e => e.2.imports.size).sum = (g.map fun e => e.2.importers.size).sum := by
  have himports : ∀ a, (importsOf g a).size = #{b ∈ g.keys.toFinset | b ∈ importsOf g a} := by
    intro a
    apply size_eq_card
    intro b hb
    exact List.mem_toFinset.2 (mem_keys_of_mem_importersOf ((h a b).2 hb))
  have himporters : ∀ b, (importersOf g b).size = #{a ∈ g.keys.toFinset | b ∈ importsOf g a} := by
    intro b
    simp only [← h _ b]
    apply size_eq_card
    intro a ha
    exact List.mem_toFinset.2 (mem_keys_of_mem_importsOf ((h a b).1 ha))
  calc (g.map fun e => e.2.imports.size).sum
      = ∑ a ∈ g.keys.toFinset, (importsOf g a).size :=
        sum_map_eq_sum_keys hkeys fun node => node.imports.size
    _ = ∑ a ∈ g.keys.toFinset, #{b ∈ g.keys.toFinset | b ∈ importsOf g a} := by
        simp only [himports]
    _ = ∑ b ∈ g.keys.toFinset, #{a ∈ g.keys.toFinset | b ∈ importsOf g a} :=
        sum_card_bipartiteAbove_eq_sum_card_bipartiteBelow fun a b => b ∈ importsOf g a
    _ = ∑ b ∈ g.keys.toFinset, (importersOf g b).size := by
        simp only [himporters]
    _ = (g.map fun e => e.2.importers.size).sum :=
        (sum_map_eq_sum_keys hkeys fun node => node.importers.size).symm

/-! ## Edges -/

def Imports (edges : Table String NameSet) (importer imported : String) : Prop :=
  imported ≠ importer ∧ ∃ targets, edges.get? importer = some targets ∧ imported ∈ targets

def importCount (edges : Table String NameSet) (name : String) : Nat :=
  (((edges.get? name).getD ∅).names.filter (· ≠ name)).length

def importerCount (edges : Table String NameSet) (name : String) : Nat :=
  (edges.filter fun e => e.1 ≠ name ∧ name ∈ e.2).length

/-- A node's two sets are of these sizes, and the node is shown with them. -/
structure ShowsCounts (node : Node) (imports importers : Nat) : Prop where
  imports_eq : node.imports.size = imports
  importers_eq : node.importers.size = importers
  shownImports : node.toJson.member? "import_count" = some (.ofNat imports)
  shownImporters : node.toJson.member? "importer_count" = some (.ofNat importers)

/-- A graph holds these edges and no others. -/
structure Draws (g : Graph) (edges : Table String NameSet) : Prop where
  nodup : g.keys.Nodup
  nodes : ∀ k, k ∈ g.keys ↔ k ∈ edges.keys ∨ ∃ a, Imports edges a k
  imports : ∀ a b, (∃ node, g.get? a = some node ∧ b ∈ node.imports) ↔ Imports edges a b
  importers : ∀ a b, (∃ node, g.get? b = some node ∧ a ∈ node.importers) ↔
    ∃ node, g.get? a = some node ∧ b ∈ node.imports
  counts : ∀ name node, g.get? name = some node →
    ShowsCounts node (importCount edges name) (importerCount edges name)
  total : (g.map fun e => e.2.imports.size).sum = (g.map fun e => e.2.importers.size).sum

theorem mem_edges_iff (hkeys : edges.keys.Nodup) :
    (b ≠ a ∧ ∃ targets, (a, targets) ∈ edges ∧ b ∈ targets) ↔ Imports edges a b := by
  simp only [Imports, Table.get?_eq_some_iff hkeys]

theorem showsCounts_ofImports (hkeys : edges.keys.Nodup)
    (h : (ofImports edges).get? a = some node) :
    ShowsCounts node (importCount edges a) (importerCount edges a) := by
  have himports : node.imports.size = importCount edges a := by
    apply NameSet.size_eq_length (((edges.get? a).getD ∅).nodup_names.filter _)
    intro b
    rw [← importsOf_eq h, mem_importsOf_ofImports, mem_edges_iff hkeys, Imports, List.mem_filter,
      decide_eq_true_eq, and_comm]
    cases edges.get? a with
    | none => simp
    | some targets => simp
  have himporters : node.importers.size = importerCount edges a := by
    have hnodup : ((edges.filter fun e => e.1 ≠ a ∧ a ∈ e.2).map Prod.fst).Nodup :=
      hkeys.sublist (List.filter_sublist.map _)
    rw [NameSet.size_eq_length hnodup, List.length_map, importerCount]
    intro b
    rw [← importersOf_eq h, mem_importersOf_ofImports, List.mem_map]
    constructor
    · rintro ⟨hne, targets, hedge, hmem⟩
      exact ⟨(b, targets), List.mem_filter.2 ⟨hedge, by simp [hne.symm, hmem]⟩, rfl⟩
    · rintro ⟨e, he, rfl⟩
      obtain ⟨hedge, hkept⟩ := List.mem_filter.1 he
      obtain ⟨hne, hmem⟩ := of_decide_eq_true hkept
      exact ⟨hne.symm, e.2, hedge, hmem⟩
  exact ⟨himports, himporters, by rw [← himports]; rfl, by rw [← himporters]; rfl⟩

theorem draws_ofImports (hkeys : edges.keys.Nodup) : (ofImports edges).Draws edges := by
  have hnodup : (ofImports edges).keys.Nodup := by
    rw [ofImports_eq_ofRows]
    exact nodup_keys_ofRows _
  have himports : ∀ a b, b ∈ importsOf (ofImports edges) a ↔ Imports edges a b := fun a b =>
    mem_importsOf_ofImports.trans (mem_edges_iff hkeys)
  have hsymmetric : (ofImports edges).IsSymmetric := fun a b =>
    mem_importersOf_ofImports.trans mem_importsOf_ofImports.symm
  constructor
  case nodup => exact hnodup
  case nodes =>
    intro k
    rw [mem_keys_ofImports]
    apply or_congr_right
    constructor
    · rintro ⟨e, he, hmem, hne⟩
      exact ⟨e.1, (mem_edges_iff hkeys).1 ⟨hne, e.2, he, hmem⟩⟩
    · rintro ⟨a, ha⟩
      obtain ⟨hne, targets, hedge, hmem⟩ := (mem_edges_iff hkeys).2 ha
      exact ⟨(a, targets), hedge, hmem, hne⟩
  case imports =>
    intro a b
    rw [← mem_importsOf_iff, himports]
  case importers =>
    intro a b
    rw [← mem_importersOf_iff, ← mem_importsOf_iff, hsymmetric]
  case counts =>
    intro name node hget
    exact showsCounts_ofImports hkeys hget
  case total => exact sum_imports_eq_sum_importers hnodup hsymmetric

/-! ## Order -/

theorem get?_ofRows (rows : List (String × List String)) (k : String) :
    (ofRows rows).get? k =
      if k ∈ (ofRows rows).keys then
        some ⟨importsOf (ofRows rows) k, importersOf (ofRows rows) k⟩
      else none := by
  by_cases hk : k ∈ (ofRows rows).keys
  · obtain ⟨node, hget⟩ := Table.mem_keys_iff.1 hk
    rw [if_pos hk, importsOf_eq hget, importersOf_eq hget, hget]
  · rw [if_neg hk, Table.get?_eq_none_iff.2 hk]

/-- Rows with the same importers that import the same make one graph. -/
theorem ofRows_perm (hkeys : ∀ k, k ∈ rows.map Prod.fst ↔ k ∈ others.map Prod.fst)
    (hjoins : ∀ a b, Joins rows a b ↔ Joins others a b) : (ofRows rows).Perm (ofRows others) := by
  apply Table.perm_of_get?_eq (nodup_keys_ofRows rows) (nodup_keys_ofRows others)
  intro k
  have hnode : k ∈ (ofRows rows).keys ↔ k ∈ (ofRows others).keys := by
    simp only [mem_keys_ofRows, hkeys, hjoins]
  have himports : importsOf (ofRows rows) k = importsOf (ofRows others) k :=
    NameSet.ext fun b => by rw [mem_importsOf_ofRows, mem_importsOf_ofRows, hjoins]
  have himporters : importersOf (ofRows rows) k = importersOf (ofRows others) k :=
    NameSet.ext fun a => by rw [mem_importersOf_ofRows, mem_importersOf_ofRows, hjoins]
  rw [get?_ofRows, get?_ofRows, himports, himporters]
  simp only [hnode]

def Lists (rows : List (String × List String)) (edges : Table String NameSet) : Prop :=
  (rows.map fun row => (row.1, NameSet.ofList row.2)).Perm edges

theorem Lists.keys_iff (h : Lists rows edges) (k : String) :
    k ∈ rows.map Prod.fst ↔ k ∈ edges.keys := by
  have hkeys := (h.map Prod.fst).mem_iff (a := k)
  rwa [List.map_map] at hkeys

theorem Lists.joins_iff (h : Lists rows edges) (a b : String) :
    Joins rows a b ↔ b ≠ a ∧ ∃ targets, (a, targets) ∈ edges ∧ b ∈ targets := by
  apply and_congr_right
  rintro -
  constructor
  · rintro ⟨names, hrow, hmem⟩
    exact ⟨NameSet.ofList names, h.mem_iff.1 (List.mem_map.2 ⟨_, hrow, rfl⟩),
      NameSet.mem_ofList.2 hmem⟩
  · rintro ⟨targets, hedge, hmem⟩
    obtain ⟨row, hrow, heq⟩ := List.mem_map.1 (h.mem_iff.2 hedge)
    obtain ⟨rfl, rfl⟩ := Prod.mk.inj heq
    exact ⟨row.2, hrow, NameSet.mem_ofList.1 hmem⟩

theorem ofRows_perm_ofImports (h : Lists rows edges) : (ofRows rows).Perm (ofImports edges) := by
  rw [ofImports_eq_ofRows]
  apply ofRows_perm
  · intro k
    rw [h.keys_iff, Table.keys, List.map_map]
    rfl
  · intro a b
    rw [h.joins_iff, joins_edges_iff]

/-- A graph holds the edges that it is made of, and holds the same in whatever order importers and
what they import are taken. -/
theorem ofImports_wellFormed (hkeys : edges.keys.Nodup) :
    (ofImports edges).Draws edges ∧
      ∀ rows, Lists rows edges → (ofRows rows).Perm (ofImports edges) :=
  ⟨draws_ofImports hkeys, fun _ => ofRows_perm_ofImports⟩

def cyclicEdges : Table String NameSet :=
  [("a", .ofList ["a", "b"]), ("b", .ofList ["a", "c"])]

/-- The third name is a node, and the cycle is the same whichever of the two comes first. -/
theorem ofImports_wellFormed_cyclic :
    cyclicEdges.keys.Nodup ∧ "c" ∈ (ofImports cyclicEdges).keys ∧
      (∃ node, (ofImports cyclicEdges).get? "a" = some node ∧ "b" ∈ node.imports ∧
        "a" ∉ node.imports) ∧
      Lists [("b", ["c", "a"]), ("a", ["b", "a"])] cyclicEdges ∧
      (ofRows [("b", ["c", "a"]), ("a", ["b", "a"])]).Perm (ofImports cyclicEdges) := by
  have hkeys : cyclicEdges.keys.Nodup := by decide
  have hlists : Lists [("b", ["c", "a"]), ("a", ["b", "a"])] cyclicEdges := by
    have hb : NameSet.ofList ["c", "a"] = .ofList ["a", "c"] :=
      NameSet.ext (by simp [or_comm])
    have ha : NameSet.ofList ["b", "a"] = .ofList ["a", "b"] :=
      NameSet.ext (by simp [or_comm])
    rw [Lists, List.map_cons, List.map_singleton, hb, ha]
    exact List.Perm.swap _ _ _
  obtain ⟨hdraws, horder⟩ := ofImports_wellFormed hkeys
  have hc : Imports cyclicEdges "b" "c" := ⟨by decide, .ofList ["a", "c"], rfl, by simp⟩
  have hab : Imports cyclicEdges "a" "b" := ⟨by decide, .ofList ["a", "b"], rfl, by simp⟩
  obtain ⟨node, hget, hmem⟩ := (hdraws.imports "a" "b").2 hab
  have hself : "a" ∉ node.imports := fun ha => ((hdraws.imports "a" "a").1 ⟨node, hget, ha⟩).1 rfl
  exact ⟨hkeys, (hdraws.nodes "c").2 (Or.inr ⟨"b", hc⟩), ⟨node, hget, hmem, hself⟩, hlists,
    horder _ hlists⟩

end Graph

end ImportSurvey
