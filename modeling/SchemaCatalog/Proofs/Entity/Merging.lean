import SchemaCatalog.Proofs.Entity.Updating

/-!
# Laws of merging

A merge holds the names of both sides, and what it holds under a name is settled by what the
two sides hold there (`Payload.MergedBy`). Since every name of the changes is met once, each
field can be looked at on its own (`exists_get?_merge`).

That a second merge of the same changes does nothing does not follow from the first alone: an
object that the first one put in whole is open to the second one, which goes into it and looks
up a schema that the first one had no need of. It then merges an object into itself, and that
changes nothing (`mergeValue_self`), which also is why a payload absorbs itself.
-/

set_option autoImplicit false
-- catalogs in closed statements are evaluated, down to the pattern of their keys
set_option maxRecDepth 1000

namespace SchemaCatalog

theorem Json.canonical_of_mem {fields : List (String × Json)} (h : (Json.object fields).Canonical)
    {name : String} {v : Json} (hv : (name, v) ∈ fields) : v.Canonical := by
  rw [Json.Canonical, Json.canonicalFields_iff] at h
  exact h.2 (name, v) hv

theorem Json.sorted_of_canonical {fields : List (String × Json)}
    (h : (Json.object fields).Canonical) : Keyed.Sorted fields := by
  rw [Json.Canonical] at h
  exact h.1

namespace Payload

/-- What the merge of changes into a base under a schema holds. -/
structure MergedBy (look : Lookup) (schema : Schema) (base changes merged : List (String × Json)) :
    Prop where
  names : ∀ name, name ∈ Keyed.keys merged ↔ name ∈ Keyed.keys base ∨ name ∈ Keyed.keys changes
  kept : ∀ name, name ∉ Keyed.keys changes → Keyed.get? merged name = Keyed.get? base name
  /-- Two objects under the name of a declared or computed reference to a single entity are
  merged in turn. -/
  joined : ∀ name target old new, (name, Kind.reference target) ∈ schema.members →
    Keyed.get? base name = some (.object old) → Keyed.get? changes name = some (.object new) →
    ∃ related inner, look.require target = .ok related ∧ merge look related old new = .ok inner ∧
      Keyed.get? merged name = some (.object inner)
  replaced : ∀ name new, Keyed.get? changes name = some new →
    (∀ target old fields, (name, Kind.reference target) ∈ schema.members →
      Keyed.get? base name = some (.object old) → new ≠ .object fields) →
    Keyed.get? merged name = some new

variable {look : Lookup} {schema : Schema} {base changes merged : List (String × Json)}

/-! ## What a merge holds -/

theorem get?_merge_of_not_mem {name : String} (hname : name ∉ Keyed.keys changes)
    (h : merge look schema base changes = .ok merged) :
    Keyed.get? merged name = Keyed.get? base name := by
  induction changes generalizing base with
  | nil =>
      rw [merge] at h
      cases h
      rfl
  | cons first rest ih =>
      obtain ⟨other, new⟩ := first
      obtain ⟨value, -, hrest⟩ := merge_cons_eq_ok_iff.1 h
      obtain ⟨hne, hname⟩ := not_or.1 (mt List.mem_cons.2 hname)
      rw [ih hname hrest, Keyed.get?_insert_of_ne base value hne]

/-- The field of a name in the changes is merged into the field of the base. -/
theorem exists_get?_merge (hkeys : (Keyed.keys changes).Nodup) {name : String} {new : Json}
    (hnew : (name, new) ∈ changes) (h : merge look schema base changes = .ok merged) :
    ∃ value, mergeValue look (schema.kind? name) (Keyed.get? base name) new = .ok value ∧
      Keyed.get? merged name = some value := by
  induction changes generalizing base with
  | nil => cases hnew
  | cons first rest ih =>
      obtain ⟨other, value'⟩ := first
      obtain ⟨value, hvalue, hrest⟩ := merge_cons_eq_ok_iff.1 h
      obtain ⟨hfirst, hkeys⟩ := List.nodup_cons.1 hkeys
      rcases List.mem_cons.1 hnew with heq | hmem
      · cases heq
        refine ⟨value, hvalue, ?_⟩
        rw [get?_merge_of_not_mem hfirst hrest, Keyed.get?_insert_self]
      · have hne : name ≠ other := by
          rintro rfl
          exact hfirst (List.mem_map.2 ⟨(name, new), hmem, rfl⟩)
        obtain ⟨value, hvalue, hget⟩ := ih hkeys hmem hrest
        rw [Keyed.get?_insert_of_ne base _ hne] at hvalue
        exact ⟨value, hvalue, hget⟩

theorem mergedBy_of_merge (hnames : schema.DistinctNames) (hkeys : (Keyed.keys changes).Nodup)
    (h : merge look schema base changes = .ok merged) : MergedBy look schema base changes merged where
  names := by
    intro name
    by_cases hname : name ∈ Keyed.keys changes
    · obtain ⟨⟨_, new⟩, hnew, rfl⟩ := List.mem_map.1 hname
      obtain ⟨value, -, hget⟩ := exists_get?_merge hkeys hnew h
      exact iff_of_true (List.mem_map.2 ⟨_, Keyed.mem_of_get?_eq_some hget, rfl⟩) (Or.inr hname)
    · rw [Keyed.mem_keys_iff_hasKey, Keyed.hasKey, get?_merge_of_not_mem hname h,
        Keyed.mem_keys_iff_hasKey, Keyed.hasKey]
      exact (or_iff_left hname).symm
  kept := fun name hname => get?_merge_of_not_mem hname h
  joined := by
    intro name target old new hmember hold hnew
    obtain ⟨value, hvalue, hget⟩ := exists_get?_merge hkeys (Keyed.mem_of_get?_eq_some hnew) h
    rw [hnames.kind?_eq_some_iff.2 hmember, hold] at hvalue
    obtain ⟨related, inner, hrelated, hinner, rfl⟩ := mergeValue_open_eq_ok_iff.1 hvalue
    exact ⟨related, inner, hrelated, hinner, hget⟩
  replaced := by
    intro name new hnew hclosed
    obtain ⟨value, hvalue, hget⟩ := exists_get?_merge hkeys (Keyed.mem_of_get?_eq_some hnew) h
    have hsame : mergeValue look (schema.kind? name) (Keyed.get? base name) new = .ok new :=
      mergeValue_eq_new fun target old fields hkind hold =>
        hclosed target old fields (hnames.kind?_eq_some_iff.1 hkind) hold
    rw [hsame] at hvalue
    cases hvalue
    exact hget

/-! ## Merges are canonical -/

theorem canonical_merge_of_values
    (h : ∀ name new, (name, new) ∈ changes → ∀ old? value, (∀ old ∈ old?, old.Canonical) →
      mergeValue look (schema.kind? name) old? new = .ok value → value.Canonical)
    (hbase : (Json.object base).Canonical) (hmerged : merge look schema base changes = .ok merged) :
    (Json.object merged).Canonical := by
  induction changes generalizing base with
  | nil =>
      rw [merge] at hmerged
      cases hmerged
      exact hbase
  | cons first rest ih =>
      obtain ⟨name, new⟩ := first
      obtain ⟨value, hvalue, hrest⟩ := merge_cons_eq_ok_iff.1 hmerged
      have hcanonical : value.Canonical := by
        refine h name new List.mem_cons_self _ value (fun old hold => ?_) hvalue
        exact Json.canonical_of_mem hbase (Keyed.mem_of_get?_eq_some hold)
      refine ih (fun name new hmem => h name new (List.mem_cons_of_mem _ hmem)) ?_ hrest
      rw [Json.Canonical, Json.canonicalFields_iff]
      refine ⟨Keyed.sorted_insert (Json.sorted_of_canonical hbase) name value, fun e he => ?_⟩
      rcases Keyed.mem_of_mem_insert he with rfl | he
      · exact hcanonical
      · exact Json.canonical_of_mem hbase he

theorem canonical_mergeValue {new value : Json} {kind? : Option Kind} {old? : Option Json}
    (hnew : new.Canonical) (hold : ∀ old ∈ old?, old.Canonical)
    (hvalue : mergeValue look kind? old? new = .ok value) : value.Canonical := by
  induction new, kind?, old? using mergeInduction generalizing value with
  | replaced new kind? old? h =>
      rw [mergeValue_eq_new h] at hvalue
      cases hvalue
      exact hnew
  | opened target old fields ih =>
      obtain ⟨related, merged, -, hmerged, rfl⟩ := mergeValue_open_eq_ok_iff.1 hvalue
      exact canonical_merge_of_values
        (fun name new hmem old? value => ih name new hmem (related.kind? name) old?
          (Json.canonical_of_mem hnew hmem))
        (hold _ rfl) hmerged

/-- Merging keeps payloads canonical. -/
theorem canonical_merge (hbase : (Json.object base).Canonical)
    (hchanges : (Json.object changes).Canonical) (hmerged : merge look schema base changes = .ok merged) :
    (Json.object merged).Canonical :=
  canonical_merge_of_values
    (fun _ _ hmem _ _ => canonical_mergeValue (Json.canonical_of_mem hchanges hmem)) hbase hmerged

/-! ## Merges that change nothing -/

/-- Changes that leave each of their fields as it is leave the whole payload as it is. -/
theorem merge_eq_self (hsorted : Keyed.Sorted base)
    (h : ∀ name new, (name, new) ∈ changes → ∃ value, Keyed.get? base name = some value ∧
      mergeValue look (schema.kind? name) (some value) new = .ok value) :
    merge look schema base changes = .ok base := by
  induction changes with
  | nil => rw [merge]
  | cons first rest ih =>
      obtain ⟨name, new⟩ := first
      obtain ⟨value, hget, hvalue⟩ := h name new List.mem_cons_self
      refine merge_cons_eq_ok_iff.2 ⟨value, by rw [hget, hvalue], ?_⟩
      rw [hsorted.insert_of_get? hget]
      exact ih fun name new hmem => h name new (List.mem_cons_of_mem _ hmem)

theorem merge_self_of_values (hbase : (Json.object base).Canonical)
    (h : ∀ name v, (name, v) ∈ base → mergeValue look (schema.kind? name) (some v) v = .ok v) :
    merge look schema base base = .ok base := by
  have hsorted := Json.sorted_of_canonical hbase
  exact merge_eq_self hsorted fun name v hmem =>
    ⟨v, Keyed.get?_eq_some_of_mem hsorted.nodup_keys hmem, h name v hmem⟩

/-- A value that is merged into itself stays as it is. -/
theorem mergeValue_self (hlook : look.Lawful) {v : Json} (hv : v.Canonical) {kind? : Option Kind}
    (hfound : ∀ target, kind? = some (.reference target) → ∃ related, look.require target = .ok related) :
    mergeValue look kind? (some v) v = .ok v := by
  generalize hold : some v = old?
  induction v, kind?, old? using mergeInduction with
  | replaced v kind? old? h => exact mergeValue_eq_new h
  | opened target old fields ih =>
      cases hold
      obtain ⟨related, hrelated⟩ := hfound target rfl
      have hself : merge look related old old = .ok old :=
        merge_self_of_values hv fun name v hmem =>
          ih name v hmem (related.kind? name) _ (Json.canonical_of_mem hv hmem)
            (fun _ hkind => hlook.target_found hrelated hkind rfl) rfl
      exact mergeValue_open_eq_ok_iff.2 ⟨related, old, hrelated, hself, rfl⟩

theorem merge_again_of_values (hkeys : (Keyed.keys changes).Nodup) (hsorted : Keyed.Sorted merged)
    (h : ∀ name new, (name, new) ∈ changes → ∀ value,
      mergeValue look (schema.kind? name) (Keyed.get? base name) new = .ok value →
      mergeValue look (schema.kind? name) (some value) new = .ok value)
    (hmerged : merge look schema base changes = .ok merged) :
    merge look schema merged changes = .ok merged := by
  refine merge_eq_self hsorted fun name new hnew => ?_
  obtain ⟨value, hvalue, hget⟩ := exists_get?_merge hkeys hnew hmerged
  exact ⟨value, hget, h name new hnew value hvalue⟩

/-- A value that was merged in is merged in again without effect. -/
theorem mergeValue_again (hlook : look.Lawful) {new value : Json} {kind? : Option Kind}
    {old? : Option Json} (hnew : new.Canonical) (hold : ∀ old ∈ old?, old.Canonical)
    (hfound : ∀ target, kind? = some (.reference target) → ∃ related, look.require target = .ok related)
    (hvalue : mergeValue look kind? old? new = .ok value) :
    mergeValue look kind? (some value) new = .ok value := by
  induction new, kind?, old? using mergeInduction generalizing value with
  | replaced new kind? old? h =>
      -- the first time the value was put in whole, so it meets itself the second time
      rw [mergeValue_eq_new h] at hvalue
      cases hvalue
      exact mergeValue_self hlook hnew hfound
  | opened target old fields ih =>
      -- both times the fields go into the object there, under the same schema
      obtain ⟨related, merged, hrelated, hmerged, rfl⟩ := mergeValue_open_eq_ok_iff.1 hvalue
      have hcanonical := canonical_merge (hold _ rfl) hnew hmerged
      have hagain : merge look related merged fields = .ok merged := by
        refine merge_again_of_values (Json.sorted_of_canonical hnew).nodup_keys
          (Json.sorted_of_canonical hcanonical) (fun name new hmem value hvalue => ?_) hmerged
        refine ih name new hmem (related.kind? name) _ (Json.canonical_of_mem hnew hmem)
          (fun v hv => ?_) (fun _ hkind => hlook.target_found hrelated hkind rfl) hvalue
        exact Json.canonical_of_mem (hold _ rfl) (Keyed.mem_of_get?_eq_some hv)
      exact mergeValue_open_eq_ok_iff.2 ⟨related, merged, hrelated, hagain, rfl⟩

/-- A payload absorbs itself. -/
theorem merge_self (hlook : look.Lawful) {key : String} (hschema : look.require key = .ok schema)
    (hbase : (Json.object base).Canonical) : merge look schema base base = .ok base :=
  merge_self_of_values hbase fun _ _ hmem =>
    mergeValue_self hlook (Json.canonical_of_mem hbase hmem)
      fun _ hkind => hlook.target_found hschema hkind rfl

/-- Merging the same changes in again has no effect. -/
theorem merge_again (hlook : look.Lawful) {key : String} (hschema : look.require key = .ok schema)
    (hbase : (Json.object base).Canonical) (hchanges : (Json.object changes).Canonical)
    (hmerged : merge look schema base changes = .ok merged) :
    merge look schema merged changes = .ok merged := by
  have hcanonical := canonical_merge hbase hchanges hmerged
  refine merge_again_of_values (Json.sorted_of_canonical hchanges).nodup_keys
    (Json.sorted_of_canonical hcanonical) (fun name new hmem value hvalue => ?_) hmerged
  refine mergeValue_again hlook (Json.canonical_of_mem hchanges hmem) (fun old hold => ?_)
    (fun _ hkind => hlook.target_found hschema hkind rfl) hvalue
  exact Json.canonical_of_mem hbase (Keyed.mem_of_get?_eq_some hold)

end Payload

namespace Catalog

open Payload (merge MergedBy)

/-- After calls by the rules, changes are merged into any payload of a stored schema: what comes
of it is settled name by name, and merging them in again has no effect. Nothing is changed by
merging in no changes, nor by merging a payload into itself. -/
theorem merge_laws (rule : KeyRule) {calls : List Call}
    (hcalls : ∀ call ∈ calls, call.checked = true) {key : String} {schema : Schema}
    {base changes : List (String × Json)} :
    let c := (empty rule .none).run calls
    c.store.get? key = some schema → (Json.object base).Canonical →
      (Json.object changes).Canonical →
      (∃ merged, merge c.lookup schema base changes = .ok merged ∧ (Json.object merged).Canonical ∧
        MergedBy c.lookup schema base changes merged ∧
        merge c.lookup schema merged changes = .ok merged) ∧
      merge c.lookup schema base [] = .ok base ∧ merge c.lookup schema base base = .ok base := by
  intro c hstored hbase hchanges
  obtain ⟨hlook, hfound⟩ := lawful_lookup_run rule hcalls
  have hschema : Lookup.require c.lookup key = .ok schema := (hfound key schema).1 hstored
  obtain ⟨merged, hmerged⟩ := Payload.exists_merge_eq_ok hlook hschema base changes
  refine ⟨⟨merged, hmerged, Payload.canonical_merge hbase hchanges hmerged, ?_, ?_⟩, ?_, ?_⟩
  · exact Payload.mergedBy_of_merge (hlook.distinct_names key schema hschema)
      (Json.sorted_of_canonical hchanges).nodup_keys hmerged
  · exact Payload.merge_again hlook hschema hbase hchanges hmerged
  · rw [merge]
  · exact Payload.merge_self hlook hschema hbase

/-- The home is put in whole and meets itself the second time; the office, a computed reference,
is an object on both sides already the first time. -/
theorem merge_laws_put_in_whole :
    let calls : List Call :=
      [.save ⟨none, "Address", "", none, [⟨"city", .scalar .string, []⟩], [], 0⟩,
        .save ⟨none, "Person", "", none, [⟨"home", .reference "Address", []⟩],
          [⟨"office", .reference "Address", "data.home"⟩], 0⟩]
    let base : List (String × Json) :=
      [("note", .bool true), ("office", .object [("city", .string "Rome"), ("floor", .nat 1)])]
    let changes : List (String × Json) :=
      [("home", .object [("city", .string "London")]), ("office", .object [("city", .string "Paris")])]
    let schema : Schema :=
      ⟨some 2, "Person", "", none, [⟨"home", .reference "Address", []⟩],
        [⟨"office", .reference "Address", "data.home"⟩], 1⟩
    let c := (empty .default .none).run calls
    (∀ call ∈ calls, call.checked = true) ∧ c.store.get? "Person" = some schema ∧
      (Json.object base).Canonical ∧ (Json.object changes).Canonical ∧
      (∃ merged, merge c.lookup schema base changes = .ok merged ∧ (Json.object merged).Canonical ∧
        MergedBy c.lookup schema base changes merged ∧
        merge c.lookup schema merged changes = .ok merged) ∧
      merge c.lookup schema base [] = .ok base ∧ merge c.lookup schema base base = .ok base := by
  intro calls base changes schema c
  have hcalls : ∀ call ∈ calls, call.checked = true := by
    simp [calls, Call.checked]
  have hstored : c.store.get? "Person" = some schema := by
    subst c calls schema
    with_unfolding_all rfl
  have hbase : (Json.object base).Canonical := by
    simp only [base, Json.nat, Json.Canonical, Json.CanonicalFields, Keyed.Sorted, List.pairwise_cons]
    decide
  have hchanges : (Json.object changes).Canonical := by
    simp only [changes, Json.Canonical, Json.CanonicalFields, Keyed.Sorted, List.pairwise_cons]
    decide
  exact ⟨hcalls, hstored, hbase, hchanges, merge_laws .default hcalls hstored hbase hchanges⟩

end Catalog

end SchemaCatalog
