import SchemaCatalog.Proofs.Catalog.Invariants

/-!
# Looking up schemas

A look-up is lawful when it finds schemas under their own keys, with distinct names, and with
every schema that they refer to. The look-up of a catalog is lawful after any calls by the
rules of saving (`Catalog.lawful_lookup_run`).
-/

set_option autoImplicit false

namespace SchemaCatalog

/-- What is relied on of the schemas that a look-up finds. -/
structure Lookup.Lawful (look : Lookup) : Prop where
  own_key : ∀ key schema, look.require key = .ok schema → schema.key = key
  distinct_names : ∀ key schema, look.require key = .ok schema → schema.DistinctNames
  targets_found : ∀ key schema, look.require key = .ok schema → ∀ member ∈ schema.members,
    ∀ target, member.2.target? = some target → ∃ related, look.require target = .ok related

/-- The target of a kind that a found schema has is found as well. -/
theorem Lookup.Lawful.target_found {look : Lookup} (h : look.Lawful) {key name target : String}
    {schema : Schema} {kind : Kind} (hschema : look.require key = .ok schema)
    (hkind : schema.kind? name = some kind) (htarget : kind.target? = some target) :
    ∃ related, look.require target = .ok related :=
  h.targets_found key schema hschema (name, kind) (Keyed.mem_of_get?_eq_some hkind) target htarget

namespace Catalog

theorem require_eq_ok_iff {c : Catalog} (hanswers : c.outages = .none) {key : String}
    {schema : Schema} :
    Lookup.require c.lookup key = .ok schema ↔ c.store.get? key = some schema := by
  rw [Lookup.require, lookup_eq_ok hanswers]
  constructor
  · intro h
    cases hget : c.store.get? key with
    | none =>
        rw [hget] at h
        cases h
    | some found =>
        rw [hget] at h
        cases h
        rfl
  · intro h
    rw [h]
    rfl

theorem lawful_lookup {c : Catalog} {rule : KeyRule} (hanswers : c.outages = .none)
    (hlawful : c.store.Lawful rule) : Lookup.Lawful c.lookup where
  own_key := fun key schema h => hlawful.own_key key schema ((require_eq_ok_iff hanswers).1 h)
  distinct_names := fun key schema h =>
    hlawful.distinct_names key schema ((require_eq_ok_iff hanswers).1 h)
  targets_found := by
    intro key schema h member hmember target htarget
    have hchild : target ∈ schema.children := (schema.mem_children_iff target).2 ⟨member, hmember, htarget⟩
    obtain ⟨related, hrelated⟩ := hlawful.children_stored key target
      ⟨schema, (require_eq_ok_iff hanswers).1 h, hchild⟩
    exact ⟨related, (require_eq_ok_iff hanswers).2 hrelated⟩

/-- After calls by the rules every stored schema is found, and the look-up is lawful. -/
theorem lawful_lookup_run (rule : KeyRule) {calls : List Call}
    (hcalls : ∀ call ∈ calls, call.checked = true) :
    let c := (empty rule .none).run calls
    Lookup.Lawful c.lookup ∧
      ∀ key schema, c.store.get? key = some schema ↔ Lookup.require c.lookup key = .ok schema := by
  intro c
  obtain ⟨-, hanswers, -, hlawful⟩ := lawful_indexed_run rule hcalls
  exact ⟨lawful_lookup hanswers hlawful, fun _ _ => (require_eq_ok_iff hanswers).symm⟩

end Catalog

end SchemaCatalog
