import SchemaCatalog.Proofs.Entity.Exported

/-!
# Built entities conform to their schemas

An entity is reached within another by a path of property names, each with a position among the
entities that the property holds (`Entity.at?`); the same path leads through a payload, where an
object that is no member of an array stands alone (`Payload.at?`).

What is built from a payload fits the schema (`Entity.Conforms`), and every entity within it was
read from the fields that stand at its path (`ReadFrom.exists_at`). So at every depth each value
fits its property, and it is empty exactly if the payload has null or nothing for it
(`build_conforms`).
-/

set_option autoImplicit false
-- catalogs in closed statements are evaluated, down to the pattern of their keys
set_option maxRecDepth 1000

namespace SchemaCatalog

/-! ## Paths into entities and payloads -/

/-- The entities that a value holds. -/
def EntityValue.entities : EntityValue → List Entity
  | .entity e => [e]
  | .entityList es => es
  | .empty | .scalar _ | .list _ => []

/-- The properties on the way to an entity, with its position among the entities of each. -/
abbrev Entity.Path := List (String × Nat)

/-- The entity at a path. -/
def Entity.at? (e : Entity) : Entity.Path → Option Entity
  | [] => some e
  | (name, i) :: path =>
      ((e.value? name).bind fun v => v.entities[i]?).bind fun inner => inner.at? path

namespace Payload

/-- The fields of the object at a position among the elements of a value. -/
def inner? (v : Json) (i : Nat) : Option (List (String × Json)) :=
  match (Entity.elements v)[i]? with
  | some (.object fields) => some fields
  | _ => none

/-- The fields of the object at a path. -/
def at? (fields : List (String × Json)) : Entity.Path → Option (List (String × Json))
  | [] => some fields
  | (name, i) :: path =>
      ((Keyed.get? fields name).bind fun v => inner? v i).bind fun inner => at? inner path

theorem inner?_of_getElem? {v : Json} {i : Nat} {fields : List (String × Json)}
    (h : (Entity.elements v)[i]? = some (.object fields)) : inner? v i = some fields := by
  rw [inner?, h]

theorem at?_cons {fields inner : List (String × Json)} {name : String} {v : Json} {i : Nat}
    (hv : Keyed.get? fields name = some v) (hinner : inner? v i = some inner)
    (path : Entity.Path) : at? fields ((name, i) :: path) = at? inner path := by
  rw [at?, hv, Option.bind_some, hinner, Option.bind_some]

end Payload

namespace Entity

/-- The first step of a path leads to an entity in the value of a property. -/
theorem at?_cons_eq_some_iff {e inner : Entity} {name : String} {i : Nat} {path : Path} :
    e.at? ((name, i) :: path) = some inner ↔
      ∃ v below, e.value? name = some v ∧ v.entities[i]? = some below ∧
        below.at? path = some inner := by
  simp only [at?, Option.bind_eq_some_iff]
  constructor
  · rintro ⟨below, ⟨v, hv, hbelow⟩, hinner⟩
    exact ⟨v, below, hv, hbelow, hinner⟩
  · rintro ⟨v, below, hv, hbelow, hinner⟩
    exact ⟨below, ⟨v, hv, hbelow⟩, hinner⟩

theorem ShapedBy.exists_property_of_value? {e : Entity} {schema : Schema} (h : e.ShapedBy schema)
    {name : String} {x : EntityValue} (hx : e.value? name = some x) :
    ∃ p ∈ schema.properties, p.name = name := by
  obtain ⟨p, hp, hname, -⟩ := h.exists_property (Keyed.mem_of_get?_eq_some hx)
  exact ⟨p, hp, hname⟩

/-- An entity has no value for a computed property. -/
theorem ShapedBy.value?_computed {e : Entity} {schema : Schema} (h : e.ShapedBy schema)
    (hnames : schema.DistinctNames) {q : ComputedProperty} (hq : q ∈ schema.computed) :
    e.value? q.name = none := by
  refine Keyed.get?_eq_none_iff.2 fun hkey => ?_
  obtain ⟨p, hp, hname⟩ := List.mem_map.1 ((h.names q.name).1 hkey)
  exact hnames.ne_of_computed hp hq hname

/-! ## Entities that fit a schema -/

/-- An entity fits a schema when it has a value for each declared property and for nothing else,
and each value fits the kind of its property. -/
structure Conforms (look : Lookup) (schema : Schema) (e : Entity) : Prop where
  shape : e.ShapedBy schema
  values : ∀ p ∈ schema.properties, ∀ v, e.value? p.name = some v → v.Conforms look p.kind

/-- An entity has the shape of a schema, and each of its values is what a field stands for. -/
structure ReadFrom (look : Lookup) (schema : Schema) (fields : List (String × Json)) (e : Entity) :
    Prop where
  shape : e.ShapedBy schema
  values : ∀ p ∈ schema.properties, ∀ v, e.value? p.name = some v →
    Reads look p.kind (Keyed.get? fields p.name) v

section Reading

variable {look : Lookup} {schema : Schema} {fields : List (String × Json)} {e : Entity}

theorem ReadFrom.conforms (h : ReadFrom look schema fields e) : Conforms look schema e :=
  ⟨h.shape, fun p hp v hv => (h.values p hp v hv).conforms⟩

/-- Over a lawful look-up an entity is built from the fields that it is read from. -/
theorem build_eq_ok_iff_readFrom (hlook : look.Lawful) {key : String}
    (hschema : look.require key = .ok schema) :
    build look schema fields = .ok e ↔ ReadFrom look schema fields e := by
  rw [build_eq_ok_iff hlook hschema]
  simp only [readField_eq_ok_iff hlook]
  exact ⟨fun ⟨hshape, hvalues⟩ => ⟨hshape, hvalues⟩, fun h => ⟨h.shape, h.values⟩⟩

/-- An entity is read from fields as a reference to its schema is read from an object with them. -/
theorem readFrom_iff_reads {target : String} (hschema : look.require target = .ok schema) :
    ReadFrom look schema fields e ↔
      Reads look (.reference target) (some (.object fields)) (.entity e) := by
  rw [reads_entity_iff]
  constructor
  · exact fun h => ⟨schema, fields, hschema, rfl, h.shape, h.values⟩
  · rintro ⟨related, below, hrelated, hbelow, hshape, hvalues⟩
    cases hschema.symm.trans hrelated
    cases hbelow
    exact ⟨hshape, hvalues⟩

/-- A value is empty exactly if it is read from null or from nothing. -/
theorem Reads.eq_empty_iff {kind : Kind} {field : Option Json} {v : EntityValue}
    (h : Reads look kind field v) : v = .empty ↔ field = none ∨ field = some .null := by
  cases h with
  | absent kind => exact iff_of_true rfl (Or.inl rfl)
  | null kind => exact iff_of_true rfl (Or.inr rfl)
  | scalar hread =>
      refine iff_of_false nofun ?_
      rintro (h | h)
      · cases h
      · cases h
        have hnull := ScalarValue.isNull_of_ofJson? hread
        cases hnull
  | list hnull _ _ =>
      refine iff_of_false nofun ?_
      rintro (h | h)
      · cases h
      · cases h
        cases hnull
  | entity _ _ _ => exact iff_of_false nofun nofun
  | entityList _ hnull _ _ =>
      refine iff_of_false nofun ?_
      rintro (h | h)
      · cases h
      · cases h
        cases hnull

/-- The step: an entity in a value was read from the object at its position in the field. -/
theorem Reads.exists_inner {kind : Kind} {field : Option Json} {x : EntityValue}
    (h : Reads look kind field x) {i : Nat} {inner : Entity} (hi : x.entities[i]? = some inner) :
    ∃ v target related below, field = some v ∧ Payload.inner? v i = some below ∧
      look.require target = .ok related ∧ ReadFrom look related below inner := by
  cases h with
  | absent kind => cases hi
  | null kind => cases hi
  | scalar hread => cases hi
  | list _ _ _ => cases hi
  | @entity target related below e hschema hshape hvalues =>
      cases i with
      | zero =>
          cases hi
          exact ⟨_, target, related, below, rfl, rfl, hschema, hshape, hvalues⟩
      | succ i => cases hi
  | @entityList target related v pairs hschema hnull hitems hread =>
      -- the members were read in order, each from the element at its position
      have hi : (pairs.map Prod.snd)[i]? = some inner := hi
      rw [List.getElem?_map] at hi
      obtain ⟨q, hq, rfl⟩ := Option.map_eq_some_iff.1 hi
      obtain ⟨related', below, hrelated, hbelow, hshape, hvalues⟩ :=
        reads_entity_iff.1 (hread q (List.mem_of_getElem? hq))
      refine ⟨v, target, related', below, rfl, ?_, hrelated, hshape, hvalues⟩
      apply Payload.inner?_of_getElem?
      rw [hitems, List.getElem?_map, hq, Option.map_some, Option.some.inj hbelow]

/-- Every entity within one that was read was itself read, from the object at its path. -/
theorem ReadFrom.exists_at (hlook : look.Lawful) (path : Path) :
    ∀ {key : String} {schema : Schema} {fields : List (String × Json)} {e inner : Entity},
      look.require key = .ok schema → ReadFrom look schema fields e → e.at? path = some inner →
      ∃ related below, look.require inner.schemaKey = .ok related ∧
        Payload.at? fields path = some below ∧ ReadFrom look related below inner := by
  induction path with
  | nil =>
      intro key schema fields e inner hschema hread hat
      cases hat
      refine ⟨schema, fields, ?_, rfl, hread⟩
      -- the key that the entity keeps is the schema's own, under which it is stored
      rw [hread.shape.schema_key, hlook.own_key key schema hschema, hschema]
  | cons step path ih =>
      intro key schema fields e inner hschema hread hat
      obtain ⟨name, i⟩ := step
      obtain ⟨x, next, hx, hnext, hinner⟩ := at?_cons_eq_some_iff.1 hat
      obtain ⟨p, hp, rfl⟩ := hread.shape.exists_property_of_value? hx
      obtain ⟨v, target, related, below, hv, hbelow, hrelated, hnextRead⟩ :=
        (hread.values p hp x hx).exists_inner hnext
      rw [Payload.at?_cons hv hbelow path]
      exact ih hrelated hnextRead hinner

end Reading

end Entity

namespace Catalog

/-- After calls by the rules an entity that is built fits its schema and holds no document that is
null. Every entity within it fits the schema stored under its key, without values for computed
properties, and a value of it is empty exactly if the payload has null or nothing there. -/
theorem build_conforms (rule : KeyRule) {calls : List Call}
    (hcalls : ∀ call ∈ calls, call.checked = true) {key : String} {schema : Schema}
    {payload : List (String × Json)} {e : Entity} :
    let c := (empty rule .none).run calls
    c.store.get? key = some schema → Entity.build c.lookup schema payload = .ok e →
      e.Conforms c.lookup schema ∧ ¬ e.Holds (.document .null) ∧
        ∀ path inner, e.at? path = some inner → ∃ related fields,
          c.store.get? inner.schemaKey = some related ∧ Payload.at? payload path = some fields ∧
            inner.Conforms c.lookup related ∧
            (∀ q ∈ related.computed, inner.value? q.name = none) ∧
            ∀ p ∈ related.properties, ∃ v, inner.value? p.name = some v ∧
              (v = .empty ↔
                Keyed.get? fields p.name = none ∨ Keyed.get? fields p.name = some .null) := by
  intro c hstored hbuild
  obtain ⟨hlook, hfound⟩ := lawful_lookup_run rule hcalls
  have hschema : Lookup.require c.lookup key = .ok schema := (hfound key schema).1 hstored
  have hread := (Entity.build_eq_ok_iff_readFrom hlook hschema).1 hbuild
  refine ⟨hread.conforms, ((Entity.readFrom_iff_reads hschema).1 hread).ne_of_holds, ?_⟩
  intro path inner hat
  obtain ⟨related, fields, hrelated, hfields, hinner⟩ := hread.exists_at hlook path hschema hat
  refine ⟨related, fields, (hfound _ related).2 hrelated, hfields, hinner.conforms, ?_, ?_⟩
  · intro q hq
    exact hinner.shape.value?_computed (hlook.distinct_names _ related hrelated) hq
  · intro p hp
    obtain ⟨v, hv⟩ := hinner.shape.exists_value hp
    exact ⟨v, hv, (hinner.values p hp v hv).eq_empty_iff⟩

/-- The single former address stands for a list of one, and the postal code in it is null. -/
theorem build_conforms_wrapped :
    let calls : List Call :=
      [.save ⟨none, "Address", "", none,
          [⟨"city", .scalar .string, []⟩, ⟨"zip", .scalar .string, []⟩], [], 0⟩,
        .save ⟨none, "Person", "", none,
          [⟨"born", .scalar .date, []⟩, ⟨"former", .listOfReference "Address", []⟩,
            ⟨"scores", .listOfScalar .number, []⟩],
          [⟨"label", .scalar .string, "name"⟩], 0⟩]
    let payload : List (String × Json) :=
      [("born", .string " 1815-12-10 "), ("former", .object [("floor", .nat 1), ("zip", .null)]),
        ("label", .string "Ada"), ("scores", .string "0")]
    let c := (empty .default .none).run calls
    let address : Entity := ⟨"Address", [("city", .empty), ("zip", .empty)]⟩
    let schema : Schema := ⟨some 2, "Person", "", none,
      [⟨"born", .scalar .date, []⟩, ⟨"former", .listOfReference "Address", []⟩,
        ⟨"scores", .listOfScalar .number, []⟩],
      [⟨"label", .scalar .string, "name"⟩], 1⟩
    let e : Entity := ⟨"Person", [("born", .scalar (.date ⟨1815, 12, 10, by decide⟩)),
      ("former", .entityList [address]), ("scores", .list [.number (.zero false)])]⟩
    (∀ call ∈ calls, call.checked = true) ∧ c.store.get? "Person" = some schema ∧
      Entity.build c.lookup schema payload = .ok e ∧ e.Conforms c.lookup schema ∧
      ¬ e.Holds (.document .null) ∧ e.value? "label" = none ∧
      Payload.at? payload [("former", 0)] = some [("floor", .nat 1), ("zip", .null)] := by
  intro calls payload c address schema e
  have hcalls : ∀ call ∈ calls, call.checked = true := by
    simp [calls, Call.checked]
  have hstored : c.store.get? "Person" = some schema := by
    subst c calls schema
    with_unfolding_all rfl
  have hbuild : Entity.build c.lookup schema payload = .ok e := by
    subst c calls schema payload e address
    with_unfolding_all rfl
  obtain ⟨hconforms, hnull, hinner⟩ := build_conforms .default hcalls hstored hbuild
  refine ⟨hcalls, hstored, hbuild, hconforms, hnull, ?_, rfl⟩
  obtain ⟨related, -, hrelated, -, -, hcomputed, -⟩ := hinner [] e rfl
  cases hstored.symm.trans hrelated
  exact hcomputed ⟨"label", .scalar .string, "name"⟩ (List.mem_singleton.2 rfl)

end Catalog

end SchemaCatalog
