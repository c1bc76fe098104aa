import SchemaCatalog.Catalog.Basic
import SchemaCatalog.Proofs.Composition.Reachability
import SchemaCatalog.Proofs.Results
import SchemaCatalog.Proofs.Schema.Members

/-!
# Saving in a catalog

A store is indexed when its graph has exactly the edges of the stored schemas; putting a
schema keeps it so (`Store.Indexed.put`), and then the ancestors of a key are the stored
schemas that are composed of it (`Store.Indexed.mem_ancestors_iff`).

`Catalog.save_eq_ok_iff` says when a catalog saves a schema and what it keeps then. Over
an indexed store the check of composition asks that the children are stored and that no
cycle runs through the saved key afterwards (`Catalog.checkComposition_eq_ok_iff_accepts`),
though it only looks at the ancestors that the key has before.
-/

set_option autoImplicit false

namespace SchemaCatalog

open Relation

/-! ## The store and its graph -/

namespace Store

/-- The schema stored under a key is composed of another key. -/
def Composes (s : Store) (parent child : String) : Prop :=
  ∃ schema, s.get? parent = some schema ∧ child ∈ schema.children

/-- Schemas are stored under their own keys, and the graph has the edges of their
composition. -/
structure Indexed (s : Store) : Prop where
  own_key : ∀ key schema, s.get? key = some schema → schema.key = key
  linked : s.graph.Linked = s.Composes
  grounded : s.graph.Grounded

theorem get?_empty (key : String) : empty.get? key = none := rfl

theorem not_composes_empty (parent child : String) : ¬ empty.Composes parent child := by
  rintro ⟨schema, h, -⟩
  rw [get?_empty] at h
  cases h

theorem indexed_empty : empty.Indexed where
  own_key := by
    intro key schema h
    rw [get?_empty] at h
    cases h
  linked := by
    funext parent child
    refine propext ⟨fun h => ?_, fun h => absurd h (not_composes_empty parent child)⟩
    simp [empty, CompositionGraph.Linked, CompositionGraph.empty] at h
  grounded := CompositionGraph.grounded_empty

theorem stamp_children (s : Store) (schema : Schema) :
    (s.stamp schema).children = schema.children := rfl

/-- What is found after a schema was put. -/
theorem get?_put (s : Store) (schema : Schema) (key : String) :
    (s.put schema).get? key = if key = schema.key then some (s.stamp schema) else s.get? key :=
  Keyed.get?_insert _ _ _ _

/-- What holds of the stamped schema and of all stored ones holds after putting it. -/
theorem forall_get?_put {s : Store} {schema : Schema} {Q : String → Schema → Prop}
    (hnew : Q schema.key (s.stamp schema)) (hold : ∀ key found, s.get? key = some found → Q key found) :
    ∀ key found, (s.put schema).get? key = some found → Q key found := by
  intro key found hfound
  rw [get?_put] at hfound
  split at hfound
  · rename_i heq
    cases hfound
    rw [heq]
    exact hnew
  · exact hold key found hfound

/-- Putting a schema redirects the composition of its key. -/
theorem composes_put (s : Store) (schema : Schema) :
    (s.put schema).Composes = Redirected s.Composes schema.key schema.children := by
  funext parent child
  refine propext ?_
  by_cases h : parent = schema.key
  · rw [h, redirected_self_iff]
    simp only [Composes, get?_put_self, Option.some.injEq, exists_eq_left', stamp_children]
  · rw [redirected_iff_of_ne h]
    simp only [Composes, get?_put_of_ne s schema h]

theorem Indexed.put {s : Store} (h : s.Indexed) (schema : Schema) : (s.put schema).Indexed where
  own_key := forall_get?_put rfl h.own_key
  linked := by
    rw [composes_put, ← h.linked]
    exact CompositionGraph.linked_setChildren s.graph schema.key schema.children
  grounded := h.grounded.setChildren schema.key schema.children

/-- A key that leads to another one is stored. -/
theorem isSome_get?_of_reflTransGen {s : Store} {key other : String} (hne : other ≠ key)
    (h : ReflTransGen s.Composes other key) : ∃ schema, s.get? other = some schema := by
  rcases ReflTransGen.cases_head h with heq | ⟨_, ⟨schema, hschema, -⟩, -⟩
  · exact absurd heq hne
  · exact ⟨schema, hschema⟩

/-- The ancestors of a key are the other keys whose schemas are composed of it. -/
theorem Indexed.mem_ancestors_iff {s : Store} (h : s.Indexed) (key other : String) :
    other ∈ (s.ancestors key).map Schema.key ↔
      other ≠ key ∧ ReflTransGen s.Composes other key := by
  have hgraph : other ∈ s.graph.ancestors key ↔ other ≠ key ∧ ReflTransGen s.Composes other key := by
    rw [CompositionGraph.mem_ancestors_iff h.grounded, h.linked]
  -- the graph may know keys that are not stored, but an ancestor has a child and so is stored
  constructor
  · intro hmem
    obtain ⟨schema, hschema, rfl⟩ := List.mem_map.1 hmem
    obtain ⟨stored, hstored, hget⟩ := List.mem_filterMap.1 hschema
    rw [h.own_key stored schema hget] at hgraph ⊢
    exact hgraph.1 hstored
  · intro hway
    obtain ⟨schema, hschema⟩ := isSome_get?_of_reflTransGen hway.1 hway.2
    exact List.mem_map.2 ⟨schema, List.mem_filterMap.2 ⟨other, hgraph.2 hway, hschema⟩,
      h.own_key other schema hschema⟩

/-- The children of a schema are stored and none of them is the schema itself; taking them
over closes no cycle through its key. -/
structure Accepts (s : Store) (schema : Schema) : Prop where
  children_stored : ∀ child ∈ schema.children,
    child ≠ schema.key ∧ ∃ stored, s.get? child = some stored
  no_cycle : ¬ TransGen (Redirected s.Composes schema.key schema.children) schema.key schema.key

/-- Over an indexed store it is enough to look at the ancestors of the key before. -/
theorem Indexed.accepts_iff {s : Store} (h : s.Indexed) (schema : Schema) :
    s.Accepts schema ↔ ∀ child ∈ schema.children,
      child ≠ schema.key ∧ (∃ stored, s.get? child = some stored) ∧
        child ∉ (s.ancestors schema.key).map Schema.key := by
  constructor
  · intro haccepts child hchild
    obtain ⟨hne, hstored⟩ := haccepts.children_stored child hchild
    refine ⟨hne, hstored, fun hanc => haccepts.no_cycle ?_⟩
    exact transGen_redirected_self_iff.2
      ⟨child, hchild, ((h.mem_ancestors_iff schema.key child).1 hanc).2⟩
  · intro hall
    refine ⟨fun child hchild => ⟨(hall child hchild).1, (hall child hchild).2.1⟩, fun hcycle => ?_⟩
    -- a cycle comes back from a new child along old steps, which makes it an old ancestor
    obtain ⟨child, hchild, hway⟩ := transGen_redirected_self_iff.1 hcycle
    obtain ⟨hne, -, hanc⟩ := hall child hchild
    exact hanc ((h.mem_ancestors_iff schema.key child).2 ⟨hne, hway⟩)

theorem versionConflict?_eq_none_iff (s : Store) (schema : Schema) :
    s.versionConflict? schema = none ↔ schema.version = s.version schema.key := by
  simp only [versionConflict?, version]
  cases s.get? schema.key with
  | none =>
      by_cases h : schema.version = 0
      · simp [h]
      · simp [h]
  | some stored =>
      by_cases h : stored.version = schema.version
      · simp [h]
      · simp [h, Ne.symm h]

/-- A store saves over the version it holds, and then has the stamped schema. -/
theorem save_eq_ok_iff {s t : Store} {schema saved : Schema} :
    s.save schema = .ok (saved, t) ↔
      schema.version = s.version schema.key ∧ saved = s.stamp schema ∧ t = s.put schema := by
  rw [← versionConflict?_eq_none_iff, save]
  cases s.versionConflict? schema with
  | none => simp [eq_comm]
  | some e => simp

end Store

/-! ## Rules of saving -/

/-- The default rule for keys is what its text is read as. -/
theorem KeyRule.ofText?_defaultText : KeyRule.ofText? KeyRule.defaultText = .ok .default := by
  decide +kernel

namespace Catalog

theorem lookup_eq_ok_some_iff {c : Catalog} {key : String} {schema : Schema} :
    c.lookup key = .ok (some schema) ↔
      c.outages.get key = false ∧ c.store.get? key = some schema := by
  rw [lookup]
  cases c.outages.get key with
  | true => simp
  | false => simp

theorem lookup_eq_ok {c : Catalog} (hanswers : c.outages = .none) (key : String) :
    c.lookup key = .ok (c.store.get? key) := by
  rw [lookup, hanswers]
  rfl

theorem validateKey_eq_ok_iff {c : Catalog} {key : String} :
    c.validateKey key = .ok () ↔ c.keyRule.pattern.isFoundIn key = true := by
  rw [validateKey]
  split
  · rename_i h
    simp [h]
  · rename_i h
    simp [h]

/-- A catalog saves in its store, unless the store fails, and changes nothing else. -/
theorem storeSave_eq_ok_iff {c c' : Catalog} {schema saved : Schema} :
    c.storeSave schema = .ok (saved, c') ↔
      c.outages.save schema.key = false ∧ schema.version = c.store.version schema.key ∧
        saved = c.store.stamp schema ∧ c' = { c with store := c.store.put schema } := by
  rw [storeSave]
  cases c.outages.save schema.key with
  | true => simp
  | false =>
      simp only [Bool.false_eq_true, if_false, true_and]
      constructor
      · intro h
        obtain ⟨⟨found, t⟩, hsave, heq⟩ := map_eq_ok_iff.1 h
        obtain ⟨hversion, hfound, ht⟩ := Store.save_eq_ok_iff.1 hsave
        obtain ⟨rfl, rfl⟩ := Prod.mk.inj heq
        exact ⟨hversion, hfound, by rw [ht]⟩
      · rintro ⟨hversion, rfl, rfl⟩
        exact map_eq_ok_iff.2 ⟨_, Store.save_eq_ok_iff.2 ⟨hversion, rfl, rfl⟩, rfl⟩

theorem checkChildren_eq_ok_iff {c : Catalog} {parent : String} {ancestors children : List String} :
    c.checkChildren parent ancestors children = .ok () ↔
      ∀ child ∈ children, child ≠ parent ∧ (∃ schema, c.lookup child = .ok (some schema)) ∧
        child ∉ ancestors := by
  induction children with
  | nil => simp [checkChildren]
  | cons child rest ih =>
      rw [List.forall_mem_cons, ← ih, checkChildren]
      by_cases hself : child = parent
      · simp [hself]
      · rw [if_neg hself, bind_eq_ok_iff]
        constructor
        · rintro ⟨found, hfound, hrest⟩
          cases found with
          | none => cases hrest
          | some schema =>
              by_cases hanc : child ∈ ancestors
              · simp [hanc] at hrest
              · simp only [hanc, if_false] at hrest
                exact ⟨⟨hself, ⟨schema, hfound⟩, hanc⟩, hrest⟩
        · rintro ⟨⟨-, ⟨schema, hfound⟩, hanc⟩, hrest⟩
          refine ⟨some schema, hfound, ?_⟩
          simp only [hanc, if_false]
          exact hrest

theorem checkComposition_eq_ok_iff {c : Catalog} {schema : Schema} :
    c.checkComposition schema = .ok () ↔
      schema.children = [] ∨ c.outages.ancestors schema.key = false ∧
        ∀ child ∈ schema.children, child ≠ schema.key ∧
          (∃ stored, c.lookup child = .ok (some stored)) ∧
          child ∉ (c.store.ancestors schema.key).map Schema.key := by
  rw [checkComposition]
  by_cases hnil : schema.children = []
  · simp [hnil]
  · have hne : schema.children.isEmpty = false := by simpa using hnil
    simp only [hne, hnil, Bool.false_eq_true, if_false, false_or]
    rw [Catalog.ancestors, ← checkChildren_eq_ok_iff]
    cases c.outages.ancestors schema.key with
    | true => simp [bind, Except.bind]
    | false => simp [bind, Except.bind]

/-- The check of composition passes only schemas that the store accepts. -/
theorem accepts_of_checkComposition {c : Catalog} (h : c.store.Indexed) {schema : Schema}
    (hok : c.checkComposition schema = .ok ()) : c.store.Accepts schema := by
  rw [h.accepts_iff]
  rcases checkComposition_eq_ok_iff.1 hok with hnil | ⟨-, hall⟩
  · simp [hnil]
  · intro child hchild
    obtain ⟨hne, ⟨stored, hstored⟩, hanc⟩ := hall child hchild
    exact ⟨hne, ⟨stored, (lookup_eq_ok_some_iff.1 hstored).2⟩, hanc⟩

/-- While the store answers, the check of composition passes all of them. -/
theorem checkComposition_eq_ok_iff_accepts {c : Catalog} (h : c.store.Indexed)
    (hanswers : c.outages = .none) {schema : Schema} :
    c.checkComposition schema = .ok () ↔ c.store.Accepts schema := by
  refine ⟨accepts_of_checkComposition h, fun haccepts => ?_⟩
  refine checkComposition_eq_ok_iff.2 (Or.inr ⟨by rw [hanswers]; rfl, fun child hchild => ?_⟩)
  obtain ⟨hne, ⟨stored, hstored⟩, hanc⟩ := (h.accepts_iff schema).1 haccepts child hchild
  exact ⟨hne, ⟨stored, lookup_eq_ok_some_iff.2 ⟨by rw [hanswers]; rfl, hstored⟩⟩, hanc⟩

/-- A schema is saved when its key has the form asked for, its names are distinct, its
composition passes the check and the store takes it. -/
theorem save_eq_ok_iff {c c' : Catalog} {schema saved : Schema} :
    c.save schema = .ok (saved, c') ↔
      c.keyRule.pattern.isFoundIn schema.key = true ∧ schema.DistinctNames ∧
        c.checkComposition schema = .ok () ∧ c.storeSave schema = .ok (saved, c') := by
  rw [save, bind_eq_ok_iff, ← Schema.duplicateNames_eq_nil_iff]
  constructor
  · rintro ⟨⟨⟩, hkey, hrest⟩
    by_cases hnames : schema.duplicateNames = []
    · rw [hnames] at hrest
      obtain ⟨⟨⟩, hcomposition, hsave⟩ := bind_eq_ok_iff.1 hrest
      exact ⟨validateKey_eq_ok_iff.1 hkey, hnames, hcomposition, hsave⟩
    · have hne : schema.duplicateNames.isEmpty = false := by simpa using hnames
      rw [hne] at hrest
      cases hrest
  · rintro ⟨hkey, hnames, hcomposition, hsave⟩
    refine ⟨(), validateKey_eq_ok_iff.2 hkey, ?_⟩
    rw [hnames]
    exact bind_eq_ok_iff.2 ⟨(), hcomposition, hsave⟩

end Catalog

end SchemaCatalog
