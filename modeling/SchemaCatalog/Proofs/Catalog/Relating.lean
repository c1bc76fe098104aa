import SchemaCatalog.Proofs.Catalog.Lookups
import SchemaCatalog.Proofs.Catalog.Worklist

/-!
# Finding related schemas

The search for the schemas related to a root is exact over every store that calls can build,
with cycles and missing schemas (`Catalog.related_exact`). It ends with a missing schema that
the root leads to, if there is one (`Store.Missing`), and else with a group for each schema
that the root leads to and that refers to others.
-/

set_option autoImplicit false

namespace SchemaCatalog

open Relation

/-- A key that is not stored, and that is the root or is referred to by a schema that the root
leads to through stored schemas. -/
def Store.Missing (s : Store) (root key : String) : Prop :=
  s.get? key = none ∧
    (key = root ∨ ∃ parent, ReflTransGen s.Composes root parent ∧ s.Composes parent key)

theorem Store.missing_iff {s : Store} {root key : String} :
    s.Missing root key ↔ s.get? key = none ∧ ReflTransGen s.Composes root key := by
  rw [Missing, ReflTransGen.cases_tail_iff]

namespace Catalog

section Related

variable {c : Catalog} {root : String} {schema : Schema}

theorem require_eq_error_iff (hanswers : c.outages = .none) {key : String} {e : CatalogError} :
    Lookup.require c.lookup key = .error e ↔ c.store.get? key = none ∧ e = .schemaNotFound key := by
  rw [Lookup.require, lookup_eq_ok hanswers]
  cases c.store.get? key with
  | none =>
      constructor
      · intro h
        cases h
        exact ⟨rfl, rfl⟩
      · rintro ⟨-, rfl⟩
        rfl
  | some found =>
      constructor
      · intro h
        cases h
      · rintro ⟨h, -⟩
        cases h

/-- While the store answers, references are the composition of the stored schemas. -/
theorem refers_lookup (hanswers : c.outages = .none) : c.lookup.Refers = c.store.Composes := by
  funext parent child
  simp only [Lookup.Refers, Store.Composes, require_eq_ok_iff hanswers, Schema.children,
    Schema.mem_sortedKeys_iff]

/-- What is found is stored, whichever look-ups fail. -/
theorem get?_of_require {key : String} (h : Lookup.require c.lookup key = .ok schema) :
    c.store.get? key = some schema := by
  obtain ⟨found, hfound, h⟩ := bind_eq_ok_iff.1 h
  cases found with
  | none => cases h
  | some found =>
      cases h
      exact (lookup_eq_ok_some_iff.1 hfound).2

theorem lookup_ownKeys (hindexed : c.store.Indexed) : c.lookup.OwnKeys :=
  fun key found h => hindexed.own_key key found (get?_of_require h)

/-- With a bound of the size of the store or more, the search from a root that is found is work
through the stack with the root alone. -/
theorem works_of_size_le (hindexed : c.store.Indexed)
    (hfound : Lookup.require c.lookup root = .ok schema) {bound : Nat}
    (hbound : c.store.size ≤ bound) :
    Relations.Works c.lookup ⟨[], []⟩ [schema]
      (Relations.expand c.lookup bound ⟨[], []⟩ schema) := by
  have hown := lookup_ownKeys hindexed
  have hspace : ∀ key found, Lookup.require c.lookup key = .ok found →
      found.key ∈ c.store.keys := by
    intro key found h
    rw [hown key found h, Store.keys, Keyed.mem_keys_iff_hasKey, Keyed.hasKey]
    exact Option.isSome_iff_exists.2 ⟨found, get?_of_require h⟩
  have hinside : ∀ first ∈ [schema], first.key ∈ c.store.keys :=
    List.forall_mem_singleton.2 (hspace root schema hfound)
  have hlength : c.store.keys.length ≤ bound + ([] : List String).length := by
    simpa [Store.keys, Store.size, Keyed.keys] using hbound
  refine Relations.works_expand hspace hown bound List.nodup_nil
    (List.nil_subset _) (List.nil_subset _) hinside hlength ?_
  rw [List.foldlM_cons]
  cases Relations.expand c.lookup bound ⟨[], []⟩ schema with
  | ok t => exact .done t
  | error e => rfl

/-- The search for the related schemas of a stored root is work through the stack with the
root alone. -/
theorem works_related (hanswers : c.outages = .none) (hindexed : c.store.Indexed)
    (hroot : c.store.get? root = some schema) :
    ∃ result, Relations.Works c.lookup ⟨[], []⟩ [schema] result ∧
      c.related root = result.map Relations.groups := by
  have hfound : Lookup.require c.lookup root = .ok schema := (require_eq_ok_iff hanswers).2 hroot
  refine ⟨Relations.expand c.lookup (c.store.size + 1) ⟨[], []⟩ schema,
    works_of_size_le hindexed hfound (Nat.le_succ _), ?_⟩
  rw [related, require, hfound]
  cases hend : Relations.expand c.lookup (c.store.size + 1) ⟨[], []⟩ schema with
  | ok t => simp [bind, Except.bind, hend, Except.map, pure, Except.pure]
  | error e => simp [bind, Except.bind, hend, Except.map]

/-- How the search for related schemas ends: with the work done, or with a missing schema. -/
theorem related_ends (hanswers : c.outages = .none) (hindexed : c.store.Indexed)
    (root : String) :
    (∃ t, c.related root = .ok t.groups ∧ Relations.Underway c.lookup root t []) ∨
      ∃ key, c.store.Missing root key ∧ c.related root = .error (.schemaNotFound key) := by
  have hown := lookup_ownKeys hindexed
  cases hroot : c.store.get? root with
  | none =>
      have hmissing := (require_eq_error_iff hanswers).2 ⟨hroot, rfl⟩
      refine Or.inr ⟨root, ⟨hroot, Or.inl rfl⟩, ?_⟩
      rw [related, require, hmissing]
      rfl
  | some schema =>
      have hfound : Lookup.require c.lookup root = .ok schema :=
        (require_eq_ok_iff hanswers).2 hroot
      obtain ⟨result, hworks, hrelated⟩ := works_related hanswers hindexed hroot
      have hstart := Relations.underway_start hfound (hown root schema hfound)
      rcases hworks.ends hown hstart with ⟨t, rfl, hend⟩ | ⟨e, parent, child, rfl, hway⟩
      · exact Or.inl ⟨t, hrelated, hend⟩
      · obtain ⟨hway, hrefers, hfailed⟩ := hway
        obtain ⟨hnone, rfl⟩ := (require_eq_error_iff hanswers).1 hfailed
        rw [refers_lookup hanswers] at hway hrefers
        exact Or.inr ⟨child, ⟨hnone, Or.inr ⟨parent, hway, hrefers⟩⟩, hrelated⟩

/-- No finished work passes over a missing schema. -/
theorem not_missing_of_underway (hanswers : c.outages = .none) (hindexed : c.store.Indexed)
    {t : Relations} (hend : Relations.Underway c.lookup root t []) (key : String) :
    ¬ c.store.Missing root key := by
  intro hmissing
  obtain ⟨hnone, hway⟩ := Store.missing_iff.1 hmissing
  rw [← refers_lookup hanswers] at hway
  have hexpanded := (hend.mem_expanded_iff (lookup_ownKeys hindexed) key).2 hway
  obtain ⟨-, schema, -, hfound, -⟩ := hend.looked_into key hexpanded
  rw [require_eq_ok_iff hanswers, hnone] at hfound
  cases hfound

/-- The groups of finished work, in terms of the store. -/
theorem groups_of_underway (hanswers : c.outages = .none) (hindexed : c.store.Indexed)
    {t : Relations} (hend : Relations.Underway c.lookup root t []) :
    (∀ key, key ∈ Keyed.keys t.groups ↔ ReflTransGen c.store.Composes root key ∧
      ∃ schema, c.store.get? key = some schema ∧ schema.references ≠ []) ∧
    ∀ key group, Keyed.get? t.groups key = some group →
      ∃ schema, c.store.get? key = some schema ∧
        InFirstOrder (schema.references.map Prod.snd) (group.map Schema.key) ∧
        ∀ member ∈ group, c.store.get? member.key = some member := by
  have hown := lookup_ownKeys hindexed
  constructor
  · intro key
    rw [hend.mem_keys_groups_iff hown, refers_lookup hanswers]
    simp only [require_eq_ok_iff hanswers]
  · intro key group hgroup
    obtain ⟨-, schema, hfound, hrelated, -⟩ := hend.of_get?_groups hgroup
    obtain ⟨hkeys, hmembers⟩ := Relations.targets_eq_ok hown hrelated
    refine ⟨schema, (require_eq_ok_iff hanswers).1 hfound, ?_, fun member hmember => ?_⟩
    · rw [hkeys]
      exact inFirstOrder_eraseDups _
    · exact (require_eq_ok_iff hanswers).1 (hmembers member hmember)

end Related

/-- The search for related schemas is exact over every store that calls build: it fails just
when the root leads to a missing schema, and names such a one, and else it groups the stored
schemas that each reachable schema refers to. It is work through a stack that comes to an
end. -/
theorem related_exact (rule : KeyRule) (calls : List Call) (root : String) :
    let c := (empty rule .none).run calls
    let s := c.store
    ((∃ e, c.related root = .error e) ↔ ∃ key, s.Missing root key) ∧
    (∀ e, c.related root = .error e → ∃ key, s.Missing root key ∧ e = .schemaNotFound key) ∧
    (∀ groups, c.related root = .ok groups → Keyed.Sorted groups ∧
      (∀ key, key ∈ Keyed.keys groups ↔ ReflTransGen s.Composes root key ∧
        ∃ schema, s.get? key = some schema ∧ schema.references ≠ []) ∧
      ∀ key group, Keyed.get? groups key = some group →
        ∃ schema, s.get? key = some schema ∧
          InFirstOrder (schema.references.map Prod.snd) (group.map Schema.key) ∧
          ∀ member ∈ group, s.get? member.key = some member) ∧
    ∀ schema, s.get? root = some schema →
      ∃ result, Relations.Works c.lookup ⟨[], []⟩ [schema] result ∧
        c.related root = result.map Relations.groups := by
  intro c s
  obtain ⟨-, hanswers, hindexed⟩ := indexed_run rule .none calls
  have hworks : ∀ schema, s.get? root = some schema →
      ∃ result, Relations.Works c.lookup ⟨[], []⟩ [schema] result ∧
        c.related root = result.map Relations.groups :=
    fun schema hschema => works_related hanswers hindexed hschema
  rcases related_ends hanswers hindexed root with ⟨t, hok, hend⟩ | ⟨key, hmissing, hkey⟩
  · -- the work was done, and nothing that it passed is missing
    have hnone := not_missing_of_underway hanswers hindexed hend
    have hnoerror : ∀ e, c.related root ≠ .error e := by
      intro e herror
      rw [hok] at herror
      cases herror
    refine ⟨?_, fun e herror => absurd herror (hnoerror e), fun groups hgroups => ?_, hworks⟩
    · constructor
      · exact fun ⟨e, herror⟩ => absurd herror (hnoerror e)
      · exact fun ⟨key, hmissing⟩ => absurd hmissing (hnone key)
    · obtain rfl := Except.ok.inj (hok.symm.trans hgroups)
      exact ⟨hend.sorted, groups_of_underway hanswers hindexed hend⟩
  · refine ⟨⟨fun _ => ⟨key, hmissing⟩, fun _ => ⟨_, hkey⟩⟩, fun e herror => ?_, ?_, hworks⟩
    · obtain rfl := Except.error.inj (hkey.symm.trans herror)
      exact ⟨key, hmissing, rfl⟩
    · intro groups hgroups
      rw [hkey] at hgroups
      cases hgroups

end Catalog

end SchemaCatalog
