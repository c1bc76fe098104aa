import SchemaCatalog.Entity.Merge
import SchemaCatalog.Proofs.Entity.Exported

/-!
# Updates of entities

Merging never fails over a lawful look-up (`exists_merge_eq_ok`), since it only follows
references to schemas that are found.

Two payloads of one schema are alike when every declared property is read the same from both,
and stays so whatever is merged into both (`Alike.merge`): an update replaces a field unless a
reference to a single entity holds an object, and then both hold objects that are alike in
turn. The payload that an entity was built from and what is written for the entity are alike
(`Reads.alike`), although they differ in names that are not declared, in null values and in the
way scalars and lists are written. So an update of the entity comes to the same as building it
from the updated payload (`update_eq_build_merge`).
-/

set_option autoImplicit false
-- catalogs in closed statements are evaluated, down to the pattern of their keys
set_option maxRecDepth 1000

namespace SchemaCatalog

/-! ## Merging field by field -/

namespace Payload

variable {look : Lookup} {schema : Schema}

/-- Objects are merged into a field of this kind and with this value. -/
def Open (kind? : Option Kind) (old? : Option Json) : Prop :=
  ∃ target old, kind? = some (.reference target) ∧ old? = some (.object old)

theorem mergeValue_of_ne_object {kind? : Option Kind} {old? : Option Json} {new : Json}
    (h : ∀ fields, new ≠ .object fields) : mergeValue look kind? old? new = .ok new := by
  cases new with
  | object fields => exact absurd rfl (h fields)
  | _ => rfl

theorem mergeValue_of_not_open {kind? : Option Kind} {old? : Option Json} (new : Json)
    (h : ¬ Open kind? old?) : mergeValue look kind? old? new = .ok new := by
  cases new with
  | object fields =>
      rw [mergeValue]
      intro target old hkind hold
      exact h ⟨target, old, hkind, hold⟩
  | _ => rfl

/-- A value takes the place of the old one, unless objects meet under a reference to a single
entity. -/
theorem mergeValue_eq_new {kind? : Option Kind} {old? : Option Json} {new : Json}
    (h : ∀ target old fields, kind? = some (.reference target) → old? = some (.object old) →
      new ≠ .object fields) : mergeValue look kind? old? new = .ok new := by
  by_cases hopen : Open kind? old?
  · obtain ⟨target, old, hkind, hold⟩ := hopen
    exact mergeValue_of_ne_object fun fields => h target old fields hkind hold
  · exact mergeValue_of_not_open new hopen

/-- Induction along the objects that a merge goes into. -/
theorem mergeInduction {motive : Json → Option Kind → Option Json → Prop}
    (replaced : ∀ new kind? old?,
      (∀ target old fields, kind? = some (.reference target) → old? = some (.object old) →
        new ≠ .object fields) → motive new kind? old?)
    (opened : ∀ target old fields,
      (∀ name new, (name, new) ∈ fields → ∀ kind? old?, motive new kind? old?) →
        motive (.object fields) (some (.reference target)) (some (.object old))) :
    ∀ new kind? old?, motive new kind? old? := by
  intro new
  induction new using Json.valueInduction with
  | leaf v _ hobject => exact fun _ _ => replaced _ _ _ fun _ _ fields _ _ => hobject fields
  | array items _ => exact fun _ _ => replaced _ _ _ fun _ _ _ _ _ => nofun
  | object fields ih =>
      intro kind? old?
      by_cases hopen : Open kind? old?
      · obtain ⟨target, old, rfl, rfl⟩ := hopen
        exact opened target old fields ih
      · refine replaced _ _ _ fun target old _ hkind hold => ?_
        exact absurd ⟨target, old, hkind, hold⟩ hopen

theorem mergeValue_open_eq_ok_iff {target : String} {old new : List (String × Json)} {value : Json} :
    mergeValue look (some (.reference target)) (some (.object old)) (.object new) = .ok value ↔
      ∃ related merged, look.require target = .ok related ∧
        merge look related old new = .ok merged ∧ value = .object merged := by
  rw [mergeValue, bind_eq_ok_iff]
  constructor
  · rintro ⟨related, hrelated, h⟩
    obtain ⟨merged, hmerged, rfl⟩ := map_eq_ok_iff.1 h
    exact ⟨related, merged, hrelated, hmerged, rfl⟩
  · rintro ⟨related, merged, hrelated, hmerged, rfl⟩
    exact ⟨related, hrelated, map_eq_ok_iff.2 ⟨merged, hmerged, rfl⟩⟩

theorem merge_cons_eq_ok_iff {base rest merged : List (String × Json)} {name : String} {new : Json} :
    merge look schema base ((name, new) :: rest) = .ok merged ↔
      ∃ value, mergeValue look (schema.kind? name) (Keyed.get? base name) new = .ok value ∧
        merge look schema (Keyed.insert base name value) rest = .ok merged := by
  rw [merge, bind_eq_ok_iff]

theorem exists_merge_of_values {changes : List (String × Json)}
    (h : ∀ name new, (name, new) ∈ changes → ∀ old?, ∃ value,
      mergeValue look (schema.kind? name) old? new = .ok value) (base : List (String × Json)) :
    ∃ merged, merge look schema base changes = .ok merged := by
  induction changes generalizing base with
  | nil => exact ⟨base, rfl⟩
  | cons first rest ih =>
      obtain ⟨name, new⟩ := first
      obtain ⟨value, hvalue⟩ := h name new List.mem_cons_self (Keyed.get? base name)
      obtain ⟨merged, hmerged⟩ :=
        ih (fun name new hmem => h name new (List.mem_cons_of_mem _ hmem)) (Keyed.insert base name value)
      exact ⟨merged, merge_cons_eq_ok_iff.2 ⟨value, hvalue, hmerged⟩⟩

/-- A value is merged without fail where a reference leads to a schema that is found. -/
theorem exists_mergeValue_eq_ok (hlook : look.Lawful) (new : Json) (kind? : Option Kind)
    (old? : Option Json)
    (hfound : ∀ target, kind? = some (.reference target) → ∃ related, look.require target = .ok related) :
    ∃ value, mergeValue look kind? old? new = .ok value := by
  induction new, kind?, old? using mergeInduction with
  | replaced new kind? old? hnew => exact ⟨new, mergeValue_eq_new hnew⟩
  | opened target old fields ih =>
      -- the fields go into the old object, by a schema that is found in turn
      obtain ⟨related, hrelated⟩ := hfound target rfl
      obtain ⟨merged, hmerged⟩ := exists_merge_of_values
        (fun name new hmem old? => ih name new hmem (related.kind? name) old?
          fun _ hkind => hlook.target_found hrelated hkind rfl) old
      exact ⟨_, mergeValue_open_eq_ok_iff.2 ⟨related, merged, hrelated, hmerged, rfl⟩⟩

/-- Over a lawful look-up merging never fails. -/
theorem exists_merge_eq_ok (hlook : look.Lawful) {key : String}
    (hschema : look.require key = .ok schema) (base changes : List (String × Json)) :
    ∃ merged, merge look schema base changes = .ok merged :=
  exists_merge_of_values (fun name new _ old? =>
    exists_mergeValue_eq_ok hlook new (schema.kind? name) old?
      fun _ hkind => hlook.target_found hschema hkind rfl) base

end Payload

/-! ## Payloads that are alike -/

namespace Entity

open Payload (Open merge mergeValue)

/-- Two fields for a property are read the same, whatever is merged into both. -/
inductive Alike (look : Lookup) : Property → Option Json → Option Json → Prop
  | same (p : Property) (field : Option Json) : Alike look p field field
  /-- Both fields are replaced by what is merged into them. -/
  | closed {p : Property} {field field' : Option Json}
      (hread : readField look p field = readField look p field')
      (hclosed : ¬ Open (some p.kind) field) (hclosed' : ¬ Open (some p.kind) field') :
      Alike look p field field'
  /-- Both fields hold objects, and what is merged into them goes to their own fields. -/
  | merged {p : Property} {target : String} {schema : Schema} {fields fields' : List (String × Json)}
      (hkind : p.kind = .reference target) (hschema : look.require target = .ok schema)
      (hfields : ∀ q ∈ schema.properties,
        Alike look q (Keyed.get? fields q.name) (Keyed.get? fields' q.name)) :
      Alike look p (some (.object fields)) (some (.object fields'))

variable {look : Lookup}

theorem build_congr {schema : Schema} {payload payload' : List (String × Json)}
    (h : ∀ p ∈ schema.properties, readField look p (Keyed.get? payload p.name) =
      readField look p (Keyed.get? payload' p.name)) :
    build look schema payload = build look schema payload' := by
  rw [build_eq_assemble, build_eq_assemble]
  exact assemble_congr h

theorem Alike.readField_eq {p : Property} {field field' : Option Json}
    (h : Alike look p field field') : readField look p field = readField look p field' := by
  induction h with
  | same p field => rfl
  | closed hread _ _ => exact hread
  | merged hkind hschema _ ih =>
      rw [readField_of_ne_null rfl, readField_of_ne_null rfl, hkind, coerce_reference,
        coerce_reference, hschema]
      exact congrArg (EntityValue.entity <$> ·) (build_congr ih)

theorem Alike.merge_of_values {schema : Schema} (hnames : schema.DistinctNames)
    {changes : List (String × Json)}
    (h : ∀ name new, (name, new) ∈ changes → ∀ p field field' value value',
      Alike look p field field' → mergeValue look (some p.kind) field new = .ok value →
      mergeValue look (some p.kind) field' new = .ok value' → Alike look p (some value) (some value'))
    {base base' merged merged' : List (String × Json)}
    (hbase : ∀ p ∈ schema.properties,
      Alike look p (Keyed.get? base p.name) (Keyed.get? base' p.name))
    (hmerged : merge look schema base changes = .ok merged)
    (hmerged' : merge look schema base' changes = .ok merged') :
    ∀ p ∈ schema.properties, Alike look p (Keyed.get? merged p.name) (Keyed.get? merged' p.name) := by
  induction changes generalizing base base' with
  | nil =>
      rw [merge] at hmerged hmerged'
      cases hmerged
      cases hmerged'
      exact hbase
  | cons first rest ih =>
      obtain ⟨name, new⟩ := first
      obtain ⟨value, hvalue, hrest⟩ := Payload.merge_cons_eq_ok_iff.1 hmerged
      obtain ⟨value', hvalue', hrest'⟩ := Payload.merge_cons_eq_ok_iff.1 hmerged'
      refine ih (fun name new hmem => h name new (List.mem_cons_of_mem _ hmem)) ?_ hrest hrest'
      intro p hp
      rw [Keyed.get?_insert, Keyed.get?_insert]
      by_cases hname : p.name = name
      · subst hname
        -- no other property has the name, so both values were merged by the kind of `p`
        rw [hnames.kind?_of_mem hp] at hvalue hvalue'
        rw [if_pos rfl, if_pos rfl]
        exact h p.name new List.mem_cons_self p _ _ value value' (hbase p hp) hvalue hvalue'
      · rw [if_neg hname, if_neg hname]
        exact hbase p hp

theorem alike_of_replaced {p : Property} {field field' : Option Json} {new value value' : Json}
    (hnew : mergeValue look (some p.kind) field new = .ok new)
    (hnew' : mergeValue look (some p.kind) field' new = .ok new)
    (hvalue : mergeValue look (some p.kind) field new = .ok value)
    (hvalue' : mergeValue look (some p.kind) field' new = .ok value') :
    Alike look p (some value) (some value') := by
  cases hnew.symm.trans hvalue
  cases hnew'.symm.trans hvalue'
  exact .same p _

/-- The step: merging a value into fields that are alike leaves them alike. -/
theorem Alike.mergeValue (hlook : look.Lawful) (new : Json) :
    ∀ p field field' value value', Alike look p field field' →
      Payload.mergeValue look (some p.kind) field new = .ok value →
      Payload.mergeValue look (some p.kind) field' new = .ok value' →
      Alike look p (some value) (some value') := by
  induction new using Json.valueInduction with
  | leaf v _ hobject =>
      intro p field field' value value' _
      exact alike_of_replaced (Payload.mergeValue_of_ne_object hobject)
        (Payload.mergeValue_of_ne_object hobject)
  | array items _ =>
      intro p field field' value value' _
      exact alike_of_replaced (Payload.mergeValue_of_ne_object nofun)
        (Payload.mergeValue_of_ne_object nofun)
  | object changes ih =>
      intro p field field' value value' halike hvalue hvalue'
      cases halike with
      | same =>
          cases hvalue.symm.trans hvalue'
          exact .same p _
      | closed _ hclosed hclosed' =>
          exact alike_of_replaced (Payload.mergeValue_of_not_open _ hclosed)
            (Payload.mergeValue_of_not_open _ hclosed') hvalue hvalue'
      | merged hkind hschema hfields =>
          -- the changes go into both objects, whose fields are alike
          rw [hkind] at hvalue hvalue'
          obtain ⟨related, merged, hrelated, hmerged, rfl⟩ :=
            Payload.mergeValue_open_eq_ok_iff.1 hvalue
          obtain ⟨related', merged', hrelated', hmerged', rfl⟩ :=
            Payload.mergeValue_open_eq_ok_iff.1 hvalue'
          cases hschema.symm.trans hrelated
          cases hschema.symm.trans hrelated'
          exact .merged hkind hschema
            (merge_of_values (hlook.distinct_names _ _ hschema) ih hfields hmerged hmerged')

/-- Merging the same changes into payloads that are alike leaves them alike. -/
theorem Alike.merge (hlook : look.Lawful) {key : String} {schema : Schema}
    (hschema : look.require key = .ok schema) {base base' changes merged merged' : List (String × Json)}
    (hbase : ∀ p ∈ schema.properties,
      Alike look p (Keyed.get? base p.name) (Keyed.get? base' p.name))
    (hmerged : Payload.merge look schema base changes = .ok merged)
    (hmerged' : Payload.merge look schema base' changes = .ok merged') :
    ∀ p ∈ schema.properties, Alike look p (Keyed.get? merged p.name) (Keyed.get? merged' p.name) :=
  merge_of_values (hlook.distinct_names key schema hschema) (fun _ new _ => mergeValue hlook new)
    hbase hmerged hmerged'

/-- Only a field that is read as an entity is open. -/
theorem Reads.exists_entity {kind : Kind} {field : Option Json} {v : EntityValue}
    (h : Reads look kind field v) (hopen : Open (some kind) field) : ∃ e, v = .entity e := by
  obtain ⟨target, old, hkind, rfl⟩ := hopen
  cases hkind
  cases h with
  | entity _ _ _ => exact ⟨_, rfl⟩

theorem Reads.alike_of_ne_entity (hlook : look.Lawful) {kind : Kind} {field field' : Option Json}
    {v : EntityValue} (h : Reads look kind field v) (h' : Reads look kind field' v)
    (hv : ∀ e, v ≠ .entity e) {p : Property} (hp : p.kind = kind) : Alike look p field field' := by
  subst hp
  refine .closed ?_ (fun hopen => ?_) (fun hopen => ?_)
  · rw [h.readField_eq_ok hlook p rfl, h'.readField_eq_ok hlook p rfl]
  · obtain ⟨e, he⟩ := h.exists_entity hopen
    exact hv e he
  · obtain ⟨e, he⟩ := h'.exists_entity hopen
    exact hv e he

/-- Fields that stand for the same value are alike. -/
theorem Reads.alike (hlook : look.Lawful) {kind : Kind} {field : Option Json} {v : EntityValue}
    (h : Reads look kind field v) :
    ∀ p field', p.kind = kind → Reads look kind field' v → Alike look p field field' := by
  induction h with
  | entity hschema hshape _ ih =>
      intro p field' hp h'
      -- the other field holds an object as well, with fields that stand for the same values
      obtain ⟨schema', fields', hschema', rfl, -, hvalues'⟩ := reads_entity_iff.1 h'
      cases hschema.symm.trans hschema'
      refine .merged hp hschema fun q hq => ?_
      obtain ⟨x, hx⟩ := hshape.exists_value hq
      exact ih q hq x hx q _ rfl (hvalues' q hq x hx)
  | absent kind =>
      exact fun p field' hp h' => (Reads.absent kind).alike_of_ne_entity hlook h' nofun hp
  | null kind =>
      exact fun p field' hp h' => (Reads.null kind).alike_of_ne_entity hlook h' nofun hp
  | scalar hread =>
      exact fun p field' hp h' => (Reads.scalar hread).alike_of_ne_entity hlook h' nofun hp
  | list hnull hitems hread =>
      exact fun p field' hp h' =>
        (Reads.list hnull hitems hread).alike_of_ne_entity hlook h' nofun hp
  | entityList hschema hnull hitems hread _ =>
      exact fun p field' hp h' =>
        (Reads.entityList hschema hnull hitems hread).alike_of_ne_entity hlook h' nofun hp

/-- The payload of a built entity and what is written for the entity are alike. -/
theorem alike_toFields (hlook : look.Lawful) {key : String} {schema : Schema}
    (hschema : look.require key = .ok schema) {payload : List (String × Json)} {e : Entity}
    (hbuild : build look schema payload = .ok e)
    (hfinite : ∀ n, e.Holds (.number n) → n.isFinite = true) :
    ∀ p ∈ schema.properties,
      Alike look p (Keyed.get? e.toFields p.name) (Keyed.get? payload p.name) := by
  obtain ⟨hshape, hvalues⟩ := (build_eq_ok_iff hlook hschema).1 hbuild
  intro p hp
  obtain ⟨v, hv⟩ := hshape.exists_value hp
  have hreads : Reads look p.kind (Keyed.get? payload p.name) v :=
    (readField_eq_ok_iff hlook).1 (hvalues p hp v hv)
  have hwritten : Reads look p.kind (Keyed.get? e.toFields p.name) v := by
    rw [get?_toFields, hv]
    exact hreads.toJson fun n hn => hfinite n (.entity (Keyed.mem_of_get?_eq_some hv) hn)
  exact hwritten.alike hlook p _ rfl hreads

/-- Over a lawful look-up an update of an entity comes to building it from the updated
payload. -/
theorem update_eq_build (hlook : look.Lawful) {key : String} {schema : Schema}
    (hschema : look.require key = .ok schema) {payload : List (String × Json)} {e : Entity}
    (hbuild : build look schema payload = .ok e)
    (hfinite : ∀ n, e.Holds (.number n) → n.isFinite = true) (changes : List (String × Json)) :
    ∃ merged, Payload.merge look schema payload changes = .ok merged ∧
      e.update look changes = build look schema merged := by
  obtain ⟨merged, hmerged⟩ := Payload.exists_merge_eq_ok hlook hschema payload changes
  obtain ⟨written, hwritten⟩ := Payload.exists_merge_eq_ok hlook hschema e.toFields changes
  have hkey : e.schemaKey = key := by
    rw [((build_eq_ok_iff hlook hschema).1 hbuild).1.schema_key, hlook.own_key key schema hschema]
  have halike := Alike.merge hlook hschema (alike_toFields hlook hschema hbuild hfinite)
    hwritten hmerged
  -- the two merged payloads may differ, but every declared property is read the same from both
  refine ⟨merged, hmerged, ?_⟩
  calc e.update look changes = build look schema written := by
        rw [update, hkey, hschema]
        exact congrArg (· >>= build look schema) hwritten
    _ = build look schema merged := build_congr fun p hp => (halike p hp).readField_eq

end Entity

namespace Catalog

/-- After calls by the rules, an update of an entity comes to building it from the updated
payload: merging into the payload succeeds, and both give the same entity or fail with the same
error. -/
theorem update_eq_build_merge (rule : KeyRule) {calls : List Call}
    (hcalls : ∀ call ∈ calls, call.checked = true) {key : String} {schema : Schema}
    {payload : List (String × Json)} {e : Entity} :
    let c := (empty rule .none).run calls
    c.store.get? key = some schema → Entity.build c.lookup schema payload = .ok e →
      (∀ n, e.Holds (.number n) → n.isFinite = true) →
      ∀ changes, ∃ merged, Payload.merge c.lookup schema payload changes = .ok merged ∧
        e.update c.lookup changes = Entity.build c.lookup schema merged := by
  intro c hstored hbuild hfinite changes
  obtain ⟨hlook, hfound⟩ := lawful_lookup_run rule hcalls
  exact Entity.update_eq_build hlook ((hfound key schema).1 hstored) hbuild hfinite changes

/-- The entity has the number for its text and null for the postal code, and knows neither the
floor nor the note; the update goes into the nested address. -/
theorem update_eq_build_merge_nested :
    let calls : List Call :=
      [.save ⟨none, "Address", "", none, [⟨"city", .scalar .string, []⟩, ⟨"zip", .scalar .string, []⟩], [], 0⟩,
        .save ⟨none, "Person", "", none, [⟨"visits", .scalar .number, []⟩, ⟨"home", .reference "Address", []⟩],
          [], 0⟩]
    let payload : List (String × Json) :=
      [("home", .object [("city", .string "London"), ("floor", .nat 1)]), ("note", .bool true),
        ("visits", .string " 0 ")]
    let changes : List (String × Json) := [("home", .object [("zip", .string "N1")])]
    let schema : Schema :=
      ⟨some 2, "Person", "", none, [⟨"visits", .scalar .number, []⟩, ⟨"home", .reference "Address", []⟩], [], 1⟩
    let e : Entity :=
      ⟨"Person", [("home", .entity ⟨"Address", [("city", .scalar (.string "London")), ("zip", .empty)]⟩),
        ("visits", .scalar (.number (.zero false)))]⟩
    let c := (empty .default .none).run calls
    (∀ call ∈ calls, call.checked = true) ∧ c.store.get? "Person" = some schema ∧
      Entity.build c.lookup schema payload = .ok e ∧
      ∃ merged, Payload.merge c.lookup schema payload changes = .ok merged ∧
        e.update c.lookup changes = Entity.build c.lookup schema merged := by
  intro calls payload changes schema e c
  have hcalls : ∀ call ∈ calls, call.checked = true := by
    simp [calls, Call.checked]
  have hstored : c.store.get? "Person" = some schema := by
    subst c calls schema
    with_unfolding_all rfl
  have hbuild : Entity.build c.lookup schema payload = .ok e := by
    subst c calls schema payload e
    with_unfolding_all rfl
  have hfinite : ∀ n, e.Holds (.number n) → n.isFinite = true := by
    intro n hn
    cases hn with
    | entity hvalue hn =>
        simp only [e, List.mem_cons, List.not_mem_nil, or_false, Prod.mk.injEq] at hvalue
        rcases hvalue with ⟨-, rfl⟩ | ⟨-, rfl⟩
        · cases hn with
          | entity hvalue hn =>
              simp only [List.mem_cons, List.not_mem_nil, or_false, Prod.mk.injEq] at hvalue
              rcases hvalue with ⟨-, rfl⟩ | ⟨-, rfl⟩
              · cases hn
              · cases hn
        · cases hn
          rfl
  exact ⟨hcalls, hstored, hbuild, update_eq_build_merge .default hcalls hstored hbuild hfinite changes⟩

end Catalog

end SchemaCatalog
