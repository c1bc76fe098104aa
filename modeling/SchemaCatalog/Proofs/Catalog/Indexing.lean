import SchemaCatalog.Proofs.Catalog.Invariants
import SchemaCatalog.Proofs.Composition.Distance

/-!
# The graph of a store

Whatever calls are made, past the rules of saving or failing, the graph of the store is the
composition of the stored schemas: a stored key has its children as edges, each once, and no
other key has edges. The ancestors of a key are found in the graph, whose nodes need not be
stored; every ancestor is (`Store.Indexed.map_key_ancestors`), so that none of them is dropped
and they come nearest first (`Catalog.graph_mirrors_store`).
-/

set_option autoImplicit false

namespace SchemaCatalog

open Relation

namespace Store

/-- The children of a stored key in the graph are those of its schema. -/
theorem Indexed.mem_graph_children_iff {s : Store} (h : s.Indexed) (key child : String) :
    child ∈ s.graph.children key ↔ s.Composes key child := by
  rw [CompositionGraph.mem_children_iff, ← h.linked]
  rfl

/-- A key that is not stored has no edges, even if it is known as a child. -/
theorem Indexed.graph_children_eq_nil {s : Store} (h : s.Indexed) {key : String}
    (hnone : s.get? key = none) : s.graph.children key = [] := by
  refine List.eq_nil_iff_forall_not_mem.2 fun child hchild => ?_
  obtain ⟨schema, hschema, -⟩ := (h.mem_graph_children_iff key child).1 hchild
  rw [hnone] at hschema
  cases hschema

/-- The ancestors in the graph are all stored, and so they are listed without a gap. -/
theorem Indexed.map_key_ancestors {s : Store} (h : s.Indexed) (key : String) :
    (s.ancestors key).map Schema.key = s.graph.ancestors key := by
  have hstored : ∀ other ∈ s.graph.ancestors key,
      (s.get? other).map Schema.key = some other := by
    intro other hother
    rw [CompositionGraph.mem_ancestors_iff h.grounded, h.linked] at hother
    obtain ⟨schema, hschema⟩ := isSome_get?_of_reflTransGen hother.1 hother.2
    rw [hschema, Option.map_some, h.own_key other schema hschema]
  rw [ancestors, List.map_filterMap, List.filterMap_congr hstored, List.filterMap_some]

/-- The listed ancestors are the stored schemas that are composed of the key. -/
theorem Indexed.mem_schema_ancestors_iff {s : Store} (h : s.Indexed) (key : String)
    (schema : Schema) :
    schema ∈ s.ancestors key ↔ s.get? schema.key = some schema ∧ schema.key ≠ key ∧
      ReflTransGen s.Composes schema.key key := by
  rw [ancestors, List.mem_filterMap]
  constructor
  · rintro ⟨other, hother, hschema⟩
    rw [CompositionGraph.mem_ancestors_iff h.grounded, h.linked] at hother
    obtain rfl := h.own_key other schema hschema
    exact ⟨hschema, hother⟩
  · rintro ⟨hschema, hway⟩
    refine ⟨schema.key, ?_, hschema⟩
    rw [CompositionGraph.mem_ancestors_iff h.grounded, h.linked]
    exact hway

end Store

namespace Catalog

/-- Every edge stands in the graph once, after any calls. -/
theorem nodup_edges_run (rule : KeyRule) (outages : Outages) (calls : List Call) :
    ((empty rule outages).run calls).store.graph.edges.Nodup := by
  refine run_preserves_of_storeSave (P := fun c => c.store.graph.edges.Nodup) ?_ calls
    (empty rule outages) List.nodup_nil
  intro c schema saved c' hnodup hok
  obtain ⟨-, -, -, rfl⟩ := storeSave_eq_ok_iff.1 hok
  exact CompositionGraph.nodup_edges_setChildren hnodup schema.key schema.children

/-- After any calls the graph is the composition of the stored schemas, and the ancestors of
any key are the stored schemas that lead to it, each once and nearest first. -/
theorem graph_mirrors_store (rule : KeyRule) (outages : Outages) (calls : List Call) :
    let s := ((empty rule outages).run calls).store
    (∀ key schema, s.get? key = some schema →
      (s.graph.children key).Nodup ∧
        ∀ child, child ∈ s.graph.children key ↔ child ∈ schema.children) ∧
    (∀ key, s.get? key = none → s.graph.children key = []) ∧
    ∀ key,
      (∀ schema, schema ∈ s.ancestors key ↔ s.get? schema.key = some schema ∧
        schema.key ≠ key ∧ ReflTransGen s.Composes schema.key key) ∧
      ((s.ancestors key).map Schema.key).Nodup ∧
      ((s.ancestors key).map fun schema => distance s.Composes schema.key key).Pairwise
        (· ≤ ·) := by
  intro s
  obtain ⟨-, -, hindexed⟩ := indexed_run rule outages calls
  refine ⟨?_, fun key hnone => hindexed.graph_children_eq_nil hnone, fun key => ⟨?_, ?_, ?_⟩⟩
  · intro key schema hschema
    refine ⟨CompositionGraph.nodup_children (nodup_edges_run rule outages calls) key, ?_⟩
    intro child
    rw [hindexed.mem_graph_children_iff]
    constructor
    · rintro ⟨found, hfound, hchild⟩
      obtain rfl := Option.some.inj (hschema.symm.trans hfound)
      exact hchild
    · exact fun hchild => ⟨schema, hschema, hchild⟩
  · exact hindexed.mem_schema_ancestors_iff key
  · rw [hindexed.map_key_ancestors]
    exact CompositionGraph.nodup_closure _ _ _
  · -- the distances are those of the keys, which the graph lists in their order
    have horder := CompositionGraph.ancestors_nearest_first s.graph key
    rw [← hindexed.map_key_ancestors, List.map_map, hindexed.linked] at horder
    exact horder

end Catalog

end SchemaCatalog
