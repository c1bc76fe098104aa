import SchemaCatalog.Entity.Merge
import SchemaCatalog.Proofs.Entity.Conformance

/-!
# Entities restored from what is written for them

An entity that fits its schema is built again from what is written for it, if its numbers are
finite and its documents are not null (`build_written`): the scalar types, the lists and the
nested schemas that the writing leaves out are found again through the schema.

An entity that was built holds no document that is null, but a number that is read from a text may
be infinite or none at all. Such a number is written as null, and what is written stands for
another entity, or for none where the null stands in a list (`written_loses_number`). Everything
else is kept: null stands where a value is empty or such a number and nowhere else, and the entity
is built again exactly if it holds no such number (`written_exact`).
-/

set_option autoImplicit false
-- catalogs in closed statements are evaluated, down to the pattern of their keys
set_option maxRecDepth 1000

namespace SchemaCatalog

/-! ## Values that are written as null -/

namespace ScalarValue

theorem toJson_eq_null_iff {x : ScalarValue} (hdocument : x ≠ .document .null) :
    x.toJson = .null ↔ ∃ n, x = .number n ∧ n.isFinite = false := by
  constructor
  · intro h
    by_contra hnone
    have hfinite : ∀ n, x = .number n → n.isFinite = true := by
      intro n hn
      by_contra hinfinite
      exact hnone ⟨n, hn, Bool.eq_false_iff.2 hinfinite⟩
    have hnull := isNull_toJson hfinite hdocument
    rw [h] at hnull
    cases hnull
  · rintro ⟨n, rfl, hinfinite⟩
    rw [toJson, Json.double, hinfinite]
    rfl

/-- A number that is not finite is not read back from what is written for it. -/
theorem isFinite_of_ofJson? {type : ScalarType} {n : Binary64}
    (h : ofJson? type (toJson (.number n)) = some (.number n)) : n.isFinite = true := by
  cases hfinite : n.isFinite with
  | true => rfl
  | false =>
      rw [toJson, Json.double, hfinite, if_neg Bool.false_ne_true, ofJson?_null] at h
      cases h

end ScalarValue

namespace EntityValue

theorem toJson_eq_null_iff {v : EntityValue} (hdocument : ¬ v.Holds (.document .null)) :
    v.toJson = .null ↔ v = .empty ∨ ∃ n, v = .scalar (.number n) ∧ n.isFinite = false := by
  cases v with
  | empty => exact iff_of_true rfl (Or.inl rfl)
  | scalar x =>
      have hx : x ≠ .document .null := by
        rintro rfl
        exact hdocument (.scalar _)
      rw [toJson, ScalarValue.toJson_eq_null_iff hx]
      simp
  | list xs => simp [toJson]
  | entity e => simp [toJson_entity]
  | entityList es => simp [toJson]

/-- In what is written for a list, null stands for numbers that are not finite. -/
theorem null_mem_items_iff {look : Lookup} {kind : Kind} {v : EntityValue}
    (hconforms : v.Conforms look kind) (hlist : kind.isList = true)
    (hdocument : ¬ v.Holds (.document .null)) {items : List Json}
    (hitems : v.toJson = .array items) :
    .null ∈ items ↔ ∃ xs n, v = .list xs ∧ .number n ∈ xs ∧ n.isFinite = false := by
  cases hconforms with
  | empty kind => cases hitems
  | scalar x => cases hlist
  | @list type xs _ =>
      rw [toJson] at hitems
      cases hitems
      have hxs : ∀ x ∈ xs, (x.toJson = .null ↔ ∃ n, x = .number n ∧ n.isFinite = false) := by
        intro x hx
        refine ScalarValue.toJson_eq_null_iff ?_
        rintro rfl
        exact hdocument (.list hx)
      constructor
      · intro h
        obtain ⟨x, hx, hnull⟩ := List.mem_map.1 h
        obtain ⟨n, rfl, hinfinite⟩ := (hxs x hx).1 hnull
        exact ⟨xs, n, rfl, hx, hinfinite⟩
      · rintro ⟨_, n, heq, hn, hinfinite⟩
        cases heq
        exact List.mem_map.2 ⟨_, hn, (hxs _ hn).2 ⟨n, rfl, hinfinite⟩⟩
  | entity _ _ _ => cases hlist
  | @entityList target schema es _ _ =>
      rw [toJson, Entity.itemsOf_eq_map] at hitems
      cases hitems
      constructor
      · intro h
        -- an entity is written as an object
        obtain ⟨e, -, hnull⟩ := List.mem_map.1 h
        cases hnull
      · rintro ⟨xs, n, heq, -, -⟩
        cases heq

/-- What is written for an entity in a value stands at its position in what is written for the
value. -/
theorem inner?_toJson {v : EntityValue} {i : Nat} {inner : Entity}
    (h : v.entities[i]? = some inner) :
    Payload.inner? v.toJson i = some inner.toFields := by
  apply Payload.inner?_of_getElem?
  cases v with
  | empty => cases h
  | scalar x => cases h
  | list xs => cases h
  | entity e =>
      cases i with
      | zero =>
          cases h
          rw [toJson_entity]
          rfl
      | succ i => cases h
  | entityList es =>
      rw [entities] at h
      rw [toJson, Entity.elements, Entity.itemsOf_eq_map, List.getElem?_map, h, Option.map_some]

end EntityValue

namespace Entity

/-- What is written for an entity within another stands at its path. -/
theorem at?_toFields (path : Path) :
    ∀ {e inner : Entity}, e.at? path = some inner →
      Payload.at? e.toFields path = some inner.toFields := by
  induction path with
  | nil =>
      intro e inner hat
      cases hat
      rfl
  | cons step path ih =>
      intro e inner hat
      obtain ⟨name, i⟩ := step
      obtain ⟨v, next, hv, hnext, hinner⟩ := at?_cons_eq_some_iff.1 hat
      have hfield : Keyed.get? e.toFields name = some v.toJson := by
        rw [get?_toFields, hv, Option.map_some]
      rw [Payload.at?_cons hfield (EntityValue.inner?_toJson hnext) path]
      exact ih hinner

section Restoring

variable {look : Lookup}

/-- A value that is read back from what is written for it holds finite numbers only. -/
theorem Reads.isFinite_of_toJson {kind : Kind} {field : Option Json} {v : EntityValue}
    (h : Reads look kind field v) :
    field = some v.toJson → ∀ n, v.Holds (.number n) → n.isFinite = true := by
  induction h with
  | absent kind => exact nofun
  | null kind => exact fun _ n hn => nomatch hn
  | scalar hread =>
      intro hfield n hn
      cases hn
      cases hfield
      exact ScalarValue.isFinite_of_ofJson? hread
  | @list type w pairs _ hitems hread =>
      intro hfield n hn
      cases hfield
      cases hn with
      | list hmem =>
          obtain ⟨q, hq, hnumber⟩ := List.mem_map.1 hmem
          -- each item is what is written for the scalar that is read from it
          rw [EntityValue.toJson, elements, List.map_map] at hitems
          have hitem : q.2.toJson = q.1 := List.map_inj_left.1 hitems q hq
          have hreadBack := hread q hq
          rw [← hitem, hnumber] at hreadBack
          exact ScalarValue.isFinite_of_ofJson? hreadBack
  | entity hschema hshape hvalues ih =>
      intro hfield n hn
      cases hn with
      | entity hv hx =>
          obtain ⟨p, hp, -, hvalue⟩ := hshape.exists_property hv
          rw [EntityValue.toJson_entity] at hfield
          cases hfield
          -- the field of the property is what is written for its value
          refine ih p hp _ hvalue ?_ n hx
          rw [get?_toFields, hvalue, Option.map_some]
  | entityList hschema _ hitems _ ih =>
      intro hfield n hn
      cases hn with
      | entityList he hx =>
          obtain ⟨q, hq, rfl⟩ := List.mem_map.1 he
          cases hfield
          rw [EntityValue.toJson, elements, itemsOf_eq_map, List.map_map] at hitems
          have hitem : .object q.2.toFields = q.1 := List.map_inj_left.1 hitems q hq
          refine ih q hq ?_ n hx
          rw [← hitem, EntityValue.toJson_entity]

/-- A value that was read is read back from what is written for it exactly if its numbers are
finite. -/
theorem Reads.toJson_iff {kind : Kind} {field : Option Json} {v : EntityValue}
    (h : Reads look kind field v) :
    Reads look kind (some v.toJson) v ↔ ∀ n, v.Holds (.number n) → n.isFinite = true :=
  ⟨fun hagain => hagain.isFinite_of_toJson rfl, h.toJson⟩

/-- An entity is built from what is written for it if it is read back as a value. -/
theorem build_toFields_eq_ok_iff (hlook : look.Lawful) {key : String} {schema : Schema}
    (hschema : look.require key = .ok schema) {e : Entity} :
    build look schema e.toFields = .ok e ↔
      Reads look (.reference key) (some (EntityValue.toJson (.entity e))) (.entity e) := by
  rw [build_eq_ok_iff_readFrom hlook hschema, readFrom_iff_reads hschema, EntityValue.toJson_entity]

end Restoring

end Entity

namespace Catalog

/-- After calls by the rules an entity that fits a stored schema, with finite numbers and without
documents that are null, is built from what is written for it. -/
theorem build_written (rule : KeyRule) {calls : List Call}
    (hcalls : ∀ call ∈ calls, call.checked = true) {key : String} {schema : Schema} {e : Entity} :
    let c := (empty rule .none).run calls
    c.store.get? key = some schema → e.Conforms c.lookup schema →
      (∀ n, e.Holds (.number n) → n.isFinite = true) → ¬ e.Holds (.document .null) →
      Entity.build c.lookup schema e.toFields = .ok e := by
  intro c hstored hconforms hfinite hdocument
  obtain ⟨hlook, hfound⟩ := lawful_lookup_run rule hcalls
  have hschema : Lookup.require c.lookup key = .ok schema := (hfound key schema).1 hstored
  have hvalue : (EntityValue.entity e).Conforms c.lookup (.reference key) :=
    .entity hschema hconforms.shape hconforms.values
  refine (Entity.build_toFields_eq_ok_iff hlook hschema).2 ?_
  refine hvalue.reads_toJson fun x hx => ScalarValue.isNull_toJson ?_ ?_
  · rintro n rfl
    exact hfinite n hx
  · rintro rfl
    exact hdocument hx

/-- A list of documents that are arrays, an empty list and an empty value within an address. -/
theorem build_written_nested :
    let calls : List Call :=
      [.save ⟨none, "Address", "", none,
          [⟨"city", .scalar .string, []⟩, ⟨"zip", .scalar .string, []⟩], [], 0⟩,
        .save ⟨none, "Person", "", none,
          [⟨"born", .scalar .date, []⟩, ⟨"files", .listOfScalar .document, []⟩,
            ⟨"home", .reference "Address", []⟩, ⟨"tags", .listOfScalar .string, []⟩,
            ⟨"visits", .scalar .number, []⟩], [], 0⟩]
    let schema : Schema := ⟨some 2, "Person", "", none,
      [⟨"born", .scalar .date, []⟩, ⟨"files", .listOfScalar .document, []⟩,
        ⟨"home", .reference "Address", []⟩, ⟨"tags", .listOfScalar .string, []⟩,
        ⟨"visits", .scalar .number, []⟩], [], 1⟩
    let home : Entity := ⟨"Address", [("city", .scalar (.string "London")), ("zip", .empty)]⟩
    let e : Entity := ⟨"Person", [("born", .scalar (.date ⟨1815, 12, 10, by decide⟩)),
      ("files", .list [.document (.array []), .document (.array [.null])]),
      ("home", .entity home), ("tags", .list []), ("visits", .scalar (.number (.zero false)))]⟩
    let c := (empty .default .none).run calls
    (∀ call ∈ calls, call.checked = true) ∧ c.store.get? "Person" = some schema ∧
      e.Conforms c.lookup schema ∧ (∀ n, e.Holds (.number n) → n.isFinite = true) ∧
      ¬ e.Holds (.document .null) ∧ Entity.build c.lookup schema e.toFields = .ok e := by
  intro calls schema home e c
  have hcalls : ∀ call ∈ calls, call.checked = true := by
    simp [calls, Call.checked]
  have hstored : c.store.get? "Person" = some schema := by
    subst c calls schema
    with_unfolding_all rfl
  -- the entity fits its schema since it is built, from a payload that is written differently
  have hbuild : Entity.build c.lookup schema
      [("born", .string " 1815-12-10"), ("files", .array [.array [], .array [.null]]),
        ("home", .object [("city", .string "London")]), ("tags", .array []),
        ("visits", .string "0")] = .ok e := by
    subst c calls schema e home
    with_unfolding_all rfl
  obtain ⟨hlook, hfound⟩ := lawful_lookup_run .default hcalls
  have hconforms : e.Conforms c.lookup schema :=
    ((Entity.build_eq_ok_iff_readFrom hlook ((hfound _ _).1 hstored)).1 hbuild).conforms
  have hfinite : ∀ n, e.Holds (.number n) → n.isFinite = true := by
    intro n hn
    have hzero : n = .zero false := by simpa [e, home, Entity.Holds] using hn
    rw [hzero]
    rfl
  have hdocument : ¬ e.Holds (.document .null) := by simp [e, home, Entity.Holds]
  exact ⟨hcalls, hstored, hconforms, hfinite, hdocument,
    build_written .default hcalls hstored hconforms hfinite hdocument⟩

/-- After calls by the rules, what is written for a built entity has null, at every depth, where a
value is empty or a number that is not finite, and in a list where there is such a number. The
entity is built again from it exactly if it holds no such number. -/
theorem written_exact (rule : KeyRule) {calls : List Call}
    (hcalls : ∀ call ∈ calls, call.checked = true) {key : String} {schema : Schema}
    {payload : List (String × Json)} {e : Entity} :
    let c := (empty rule .none).run calls
    c.store.get? key = some schema → Entity.build c.lookup schema payload = .ok e →
      (∀ path inner, e.at? path = some inner → ∃ related,
        c.store.get? inner.schemaKey = some related ∧
          Payload.at? e.toFields path = some inner.toFields ∧
          ∀ p ∈ related.properties, ∃ v, inner.value? p.name = some v ∧
            (Keyed.get? inner.toFields p.name = some .null ↔
              v = .empty ∨ ∃ n, v = .scalar (.number n) ∧ n.isFinite = false) ∧
            (p.kind.isList = true → ∀ items,
              Keyed.get? inner.toFields p.name = some (.array items) →
                (.null ∈ items ↔ ∃ xs n, v = .list xs ∧ .number n ∈ xs ∧ n.isFinite = false))) ∧
      (Entity.build c.lookup schema e.toFields = .ok e ↔
        ∀ n, e.Holds (.number n) → n.isFinite = true) := by
  intro c hstored hbuild
  obtain ⟨hlook, hfound⟩ := lawful_lookup_run rule hcalls
  have hschema : Lookup.require c.lookup key = .ok schema := (hfound key schema).1 hstored
  have hread := (Entity.build_eq_ok_iff_readFrom hlook hschema).1 hbuild
  refine ⟨?_, ?_⟩
  · intro path inner hat
    obtain ⟨related, fields, hrelated, -, hinner⟩ := hread.exists_at hlook path hschema hat
    refine ⟨related, (hfound _ related).2 hrelated, Entity.at?_toFields path hat, ?_⟩
    intro p hp
    obtain ⟨v, hv⟩ := hinner.shape.exists_value hp
    have hdocument : ¬ v.Holds (.document .null) := (hinner.values p hp v hv).ne_of_holds
    refine ⟨v, hv, ?_, ?_⟩
    · rw [Entity.get?_toFields, hv, Option.map_some, Option.some.injEq]
      exact EntityValue.toJson_eq_null_iff hdocument
    · intro hlist items hitems
      rw [Entity.get?_toFields, hv, Option.map_some, Option.some.injEq] at hitems
      exact EntityValue.null_mem_items_iff (hinner.values p hp v hv).conforms hlist hdocument hitems
  · rw [Entity.build_toFields_eq_ok_iff hlook hschema]
    exact ((Entity.readFrom_iff_reads hschema).1 hread).toJson_iff

/-- In the second of two zones the level is infinite; without it the entity would be kept. -/
theorem written_exact_infinite :
    let calls : List Call :=
      [.save ⟨none, "Zone", "", none, [⟨"level", .scalar .number, []⟩], [], 0⟩,
        .save ⟨none, "Site", "", none, [⟨"zones", .listOfReference "Zone", []⟩], [], 0⟩]
    let payload : List (String × Json) :=
      [("zones", .array [.object [], .object [("level", .string "-Infinity")]])]
    let schema : Schema :=
      ⟨some 2, "Site", "", none, [⟨"zones", .listOfReference "Zone", []⟩], [], 1⟩
    let zone : Entity := ⟨"Zone", [("level", .scalar (.number (.infinite true)))]⟩
    let e : Entity := ⟨"Site", [("zones", .entityList [⟨"Zone", [("level", .empty)]⟩, zone])]⟩
    let c := (empty .default .none).run calls
    (∀ call ∈ calls, call.checked = true) ∧ c.store.get? "Site" = some schema ∧
      Entity.build c.lookup schema payload = .ok e ∧ e.at? [("zones", 1)] = some zone ∧
      Payload.at? e.toFields [("zones", 1)] = some zone.toFields ∧
      zone.toFields = [("level", .null)] ∧ Entity.build c.lookup schema e.toFields ≠ .ok e := by
  intro calls payload schema zone e c
  have hcalls : ∀ call ∈ calls, call.checked = true := by
    simp [calls, Call.checked]
  have hstored : c.store.get? "Site" = some schema := by
    subst c calls schema
    with_unfolding_all rfl
  have hbuild : Entity.build c.lookup schema payload = .ok e := by
    subst c calls schema payload e zone
    with_unfolding_all rfl
  obtain ⟨hinner, hagain⟩ := written_exact .default hcalls hstored hbuild
  obtain ⟨-, -, hzone, -⟩ := hinner [("zones", 1)] zone rfl
  refine ⟨hcalls, hstored, hbuild, rfl, hzone, rfl, fun hrebuilt => ?_⟩
  have hfinite := hagain.1 hrebuilt (.infinite true) (by simp [e, zone, Entity.Holds])
  cases hfinite

/-- The texts for an infinite number and for none are accepted, but null is written for them, and
even an update without changes fails on it. -/
theorem written_loses_number :
    let calls : List Call :=
      [.save ⟨none, "Sensor", "", none,
        [⟨"last", .scalar .number, []⟩, ⟨"readings", .listOfScalar .number, []⟩], [], 0⟩]
    let payload : List (String × Json) := [("last", .string "NaN"), ("readings", .string "inf")]
    let schema : Schema := ⟨some 1, "Sensor", "", none,
      [⟨"last", .scalar .number, []⟩, ⟨"readings", .listOfScalar .number, []⟩], [], 1⟩
    let e : Entity := ⟨"Sensor", [("last", .scalar (.number .nan)),
      ("readings", .list [.number (.infinite false)])]⟩
    let c := (empty .default .none).run calls
    (∀ call ∈ calls, call.checked = true) ∧ c.store.get? "Sensor" = some schema ∧
      Entity.build c.lookup schema payload = .ok e ∧
      e.toFields = [("last", .null), ("readings", .array [.null])] ∧
      e.update c.lookup [] = .error (.mismatch "readings" "Number" .null) := by
  intro calls payload schema e c
  refine ⟨?_, ?_, ?_, rfl, ?_⟩
  · simp [calls, Call.checked]
  · subst c calls schema
    with_unfolding_all rfl
  · subst c calls schema payload e
    rfl
  · subst c calls e
    with_unfolding_all rfl

end Catalog

end SchemaCatalog
