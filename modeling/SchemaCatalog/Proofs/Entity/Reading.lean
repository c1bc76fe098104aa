import SchemaCatalog.Entity.Build
import SchemaCatalog.Proofs.Catalog.Lookups

/-!
# What payloads are read as

`Reads look kind field value` says that a field of a payload, which may be missing, stands for
a value of a kind. It leaves out errors and the order in which things are looked at; over a
lawful look-up, reading a field gives a value exactly when the field stands for it
(`readField_eq_ok_iff`). An entity is built exactly when it has the shape of its schema and the
payload stands for its values (`build_eq_ok_iff`).
-/

set_option autoImplicit false

namespace SchemaCatalog

/-- Induction over a value and the values in it. -/
theorem Json.valueInduction {motive : Json → Prop}
    (leaf : ∀ v, (∀ items, v ≠ .array items) → (∀ fields, v ≠ .object fields) → motive v)
    (array : ∀ items, (∀ v ∈ items, motive v) → motive (.array items))
    (object : ∀ fields, (∀ name v, (name, v) ∈ fields → motive v) → motive (.object fields)) :
    ∀ v, motive v
  | .array items => array items fun v hv =>
      have _hmem : v ∈ items := hv
      valueInduction leaf array object v
  | .object fields => object fields fun name v hv =>
      have _hmem : (name, v) ∈ fields := hv
      valueInduction leaf array object v
  | .null => leaf _ nofun nofun
  | .bool _ => leaf _ nofun nofun
  | .number _ => leaf _ nofun nofun
  | .string _ => leaf _ nofun nofun
termination_by v => sizeOf v
decreasing_by
  · have hlt := List.sizeOf_lt_of_mem _hmem
    simp only [Json.array.sizeOf_spec]
    omega
  · have hlt := List.sizeOf_lt_of_mem _hmem
    simp only [Json.object.sizeOf_spec, Prod.mk.sizeOf_spec] at hlt ⊢
    omega

namespace ScalarValue

theorem coerce_eq_ok_iff {property : String} {type : ScalarType} {v : Json}
    {x : ScalarValue} :
    coerce property type v = .ok x ↔ ofJson? type v = some x := by
  rw [coerce]
  cases ofJson? type v with
  | none => simp [mismatch]
  | some y => simp

theorem ofJson?_null (type : ScalarType) : ofJson? type .null = none := by
  cases type with
  | string => rfl
  | number => rfl
  | boolean => rfl
  | date => rfl
  | time => rfl
  | document => rfl

theorem isNull_of_ofJson? {type : ScalarType} {v : Json} {x : ScalarValue}
    (h : ofJson? type v = some x) : v.isNull = false := by
  cases v with
  | null =>
      rw [ofJson?_null] at h
      cases h
  | bool b => rfl
  | number n => rfl
  | string s => rfl
  | array items => rfl
  | object fields => rfl

end ScalarValue

namespace Entity

/-! ## The shape of an entity -/

/-- An entity has the key of a schema, and one value for each declared property, in the order
of their names. -/
structure ShapedBy (e : Entity) (schema : Schema) : Prop where
  schema_key : e.schemaKey = schema.key
  sorted : Keyed.Sorted e.values
  names : ∀ name, name ∈ Keyed.keys e.values ↔ name ∈ schema.properties.map Property.name

theorem ShapedBy.exists_value {e : Entity} {schema : Schema} (h : e.ShapedBy schema) {p : Property}
    (hp : p ∈ schema.properties) : ∃ x, e.value? p.name = some x := by
  have hkey : p.name ∈ Keyed.keys e.values := (h.names p.name).2 (List.mem_map.2 ⟨p, hp, rfl⟩)
  exact Option.isSome_iff_exists.1 ((Keyed.mem_keys_iff_hasKey e.values p.name).1 hkey)

theorem ShapedBy.exists_property {e : Entity} {schema : Schema} (h : e.ShapedBy schema)
    {name : String} {x : EntityValue} (hx : (name, x) ∈ e.values) :
    ∃ p ∈ schema.properties, p.name = name ∧ e.value? p.name = some x := by
  obtain ⟨p, hp, rfl⟩ := List.mem_map.1 ((h.names name).1 (List.mem_map.2 ⟨(name, x), hx, rfl⟩))
  exact ⟨p, hp, rfl, Keyed.get?_eq_some_of_mem h.sorted.nodup_keys hx⟩

/-- Entities of one shape are the same when they have the same values. -/
theorem ShapedBy.ext {e e' : Entity} {schema : Schema} (h : e.ShapedBy schema)
    (h' : e'.ShapedBy schema)
    (hvalues : ∀ p ∈ schema.properties, e.value? p.name = e'.value? p.name) : e = e' := by
  obtain ⟨schemaKey, values⟩ := e
  obtain ⟨schemaKey', values'⟩ := e'
  have hkey : schemaKey = schemaKey' := h.schema_key.trans h'.schema_key.symm
  have hget : ∀ name, Keyed.get? values name = Keyed.get? values' name := by
    intro name
    by_cases hname : name ∈ schema.properties.map Property.name
    · obtain ⟨p, hp, rfl⟩ := List.mem_map.1 hname
      exact hvalues p hp
    · rw [Keyed.get?_eq_none_iff.2 (mt (h.names name).1 hname),
        Keyed.get?_eq_none_iff.2 (mt (h'.names name).1 hname)]
  have hsame : values = values' := Keyed.Sorted.ext h.sorted h'.sorted hget
  rw [hkey, hsame]

theorem assemble_congr {schema : Schema} {read read' : Property → Except CatalogError EntityValue}
    (h : ∀ p ∈ schema.properties, read p = read' p) : assemble schema read = assemble schema read' := by
  rw [assemble, assemble, mapM_congr fun p hp => ?_]
  rw [h p hp]

/-- An entity that is put together has the shape of its schema and the values that are read. -/
theorem shaped_of_assemble {schema : Schema} {read : Property → Except CatalogError EntityValue}
    {e : Entity} (hnames : (schema.properties.map Property.name).Nodup)
    (h : assemble schema read = .ok e) :
    e.ShapedBy schema ∧ ∀ p ∈ schema.properties, ∀ x, e.value? p.name = some x → read p = .ok x := by
  obtain ⟨values, hvalues, heq⟩ := bind_eq_ok_iff.1 h
  cases heq
  obtain ⟨pairs, hfst, rfl, hpairs⟩ := mapM_eq_ok_iff.1 hvalues
  have hread : ∀ q ∈ pairs, read q.1 = .ok q.2.2 ∧ q.2.1 = q.1.name := by
    intro q hq
    obtain ⟨x, hx, heq⟩ := bind_eq_ok_iff.1 (hpairs q hq)
    have hentry : q.2 = (q.1.name, x) := (Except.ok.inj heq).symm
    rw [hentry]
    exact ⟨hx, rfl⟩
  have hkeys : Keyed.keys (pairs.map Prod.snd) = schema.properties.map Property.name := by
    rw [hfst, Keyed.keys, List.map_map, List.map_map]
    exact List.map_congr_left fun q hq => (hread q hq).2
  have hnodup : (Keyed.keys (pairs.map Prod.snd)).Nodup := hkeys ▸ hnames
  refine ⟨⟨rfl, Keyed.sorted_ofList _, fun name => ?_⟩, ?_⟩
  · rw [Keyed.mem_keys_ofList_iff, hkeys]
  · intro p hp x hx
    obtain ⟨q, hq, rfl⟩ := List.mem_map.1 (hfst ▸ hp)
    obtain ⟨hvalue, hname⟩ := hread q hq
    have hmem : (q.1.name, q.2.2) ∈ pairs.map Prod.snd :=
      List.mem_map.2 ⟨q, hq, by rw [← hname]⟩
    rw [value?, Keyed.get?_ofList hnodup, Keyed.get?_eq_some_of_mem hnodup hmem] at hx
    cases hx
    exact hvalue

/-- Over distinct names an entity is put together exactly when it has the shape of its schema
and each of its values is read. -/
theorem assemble_eq_ok_iff {schema : Schema}
    {read : Property → Except CatalogError EntityValue} {e : Entity}
    (hnames : (schema.properties.map Property.name).Nodup) :
    assemble schema read = .ok e ↔
      e.ShapedBy schema ∧
        ∀ p ∈ schema.properties, ∀ x, e.value? p.name = some x → read p = .ok x := by
  refine ⟨shaped_of_assemble hnames, ?_⟩
  rintro ⟨hshape, hread⟩
  -- every value is read, so some entity is put together, and it can only be `e`
  have hvalues : ∃ values, (schema.properties.mapM fun p => do
      let v ← read p
      pure (p.name, v)) = .ok values := by
    refine exists_mapM_eq_ok fun p hp => ?_
    obtain ⟨x, hx⟩ := hshape.exists_value hp
    exact ⟨(p.name, x), bind_eq_ok_iff.2 ⟨x, hread p hp x hx, rfl⟩⟩
  obtain ⟨values, hvalues⟩ := hvalues
  have hmade : assemble schema read = .ok ⟨schema.key, Keyed.ofList values⟩ :=
    bind_eq_ok_iff.2 ⟨values, hvalues, rfl⟩
  obtain ⟨hshape', hread'⟩ := shaped_of_assemble hnames hmade
  have hsame : (⟨schema.key, Keyed.ofList values⟩ : Entity) = e := by
    refine hshape'.ext hshape fun p hp => ?_
    obtain ⟨x, hx⟩ := hshape.exists_value hp
    obtain ⟨x', hx'⟩ := hshape'.exists_value hp
    have hsame : x = x' := by
      have hok := hread p hp x hx
      rw [hread' p hp x' hx'] at hok
      exact (Except.ok.inj hok).symm
    rw [hx, hx', hsame]
  rw [hmade, hsame]

/-! ## Reading a field -/

/-- What is read for a property from a field of a payload. -/
def readField (look : Lookup) (p : Property) : Option Json → Except CatalogError EntityValue
  | none => .ok .empty
  | some v => if v.isNull then .ok .empty else coerce look p.name p.kind v

/-- The entity of a schema from a value, which has to be an object. -/
def nested (look : Lookup) (property : String) (schema : Schema) : Json → Except CatalogError Entity
  | .object fields => build look schema fields
  | v => mismatch property (expected schema) v

section Reading

variable {look : Lookup}

theorem build_eq_assemble (schema : Schema) (payload : List (String × Json)) :
    build look schema payload =
      assemble schema fun p => readField look p (Keyed.get? payload p.name) := by
  refine assemble_congr fun p _ => ?_
  rw [valueIn_eq]
  cases Keyed.get? payload p.name with
  | none => rfl
  | some v => rfl

theorem readField_of_ne_null {p : Property} {v : Json} (h : v.isNull = false) :
    readField look p (some v) = coerce look p.name p.kind v := by
  simp [readField, h]

theorem coerceItems_eq_mapM (property : String) (schema : Schema) (items : List Json) :
    coerceItems look property schema items = items.mapM (nested look property schema) := by
  induction items with
  | nil => rfl
  | cons v rest ih =>
      rw [List.mapM_cons, ← ih]
      cases v with
      | object fields => rfl
      | null => rfl
      | bool b => rfl
      | number n => rfl
      | string s => rfl
      | array vs => rfl

theorem coerce_reference (property target : String) (v : Json) :
    coerce look property (.reference target) v = (do
      let schema ← look.require target
      .entity <$> nested look property schema v) := by
  cases v with
  | object fields => rfl
  | null => rfl
  | bool b => rfl
  | number n => rfl
  | string s => rfl
  | array vs => rfl

theorem coerce_listOfReference (property target : String) (v : Json) :
    coerce look property (.listOfReference target) v = (do
      let schema ← look.require target
      .entityList <$> (elements v).mapM (nested look property schema)) := by
  cases v with
  | array items => simp only [coerce, elements, coerceItems_eq_mapM]
  | object fields => simp [coerce, elements, nested, build]
  | null => simp [coerce, elements, nested, mismatch]
  | bool b => rfl
  | number n => rfl
  | string s => rfl

/-- A reference is read from an object that an entity of the schema is built from. -/
theorem coerce_reference_eq_ok_iff {property target : String} {v : Json} {x : EntityValue} :
    coerce look property (.reference target) v = .ok x ↔
      ∃ schema fields e, look.require target = .ok schema ∧ v = .object fields ∧
        build look schema fields = .ok e ∧ x = .entity e := by
  rw [coerce_reference, bind_eq_ok_iff]
  constructor
  · rintro ⟨schema, hschema, h⟩
    obtain ⟨e, he, rfl⟩ := map_eq_ok_iff.1 h
    cases v with
    | object fields => exact ⟨schema, fields, e, hschema, rfl, he, rfl⟩
    | null => cases he
    | bool b => cases he
    | number n => cases he
    | string s => cases he
    | array items => cases he
  · rintro ⟨schema, fields, e, hschema, rfl, he, rfl⟩
    exact ⟨schema, hschema, map_eq_ok_iff.2 ⟨e, he, rfl⟩⟩

/-- A list of references is read when each element is read as a reference. -/
theorem coerce_listOfReference_eq_ok_iff {property target : String} {v : Json} {x : EntityValue} :
    coerce look property (.listOfReference target) v = .ok x ↔
      (∃ schema, look.require target = .ok schema) ∧
        ∃ pairs : List (Json × Entity), elements v = pairs.map Prod.fst ∧
          (∀ q ∈ pairs, coerce look property (.reference target) q.1 = .ok (.entity q.2)) ∧
          x = .entityList (pairs.map Prod.snd) := by
  rw [coerce_listOfReference, bind_eq_ok_iff]
  have hone : ∀ schema, look.require target = .ok schema → ∀ (w : Json) (e : Entity),
      coerce look property (.reference target) w = .ok (.entity e) ↔
        nested look property schema w = .ok e := by
    intro schema hschema w e
    rw [coerce_reference, hschema]
    constructor
    · intro h
      obtain ⟨e', he', heq⟩ := map_eq_ok_iff.1 h
      cases heq
      exact he'
    · exact fun h => map_eq_ok_iff.2 ⟨e, h, rfl⟩
  constructor
  · rintro ⟨schema, hschema, h⟩
    obtain ⟨es, hes, rfl⟩ := map_eq_ok_iff.1 h
    obtain ⟨pairs, hitems, rfl, hpairs⟩ := mapM_eq_ok_iff.1 hes
    exact ⟨⟨schema, hschema⟩, pairs, hitems,
      fun q hq => (hone schema hschema q.1 q.2).2 (hpairs q hq), rfl⟩
  · rintro ⟨⟨schema, hschema⟩, pairs, hitems, hpairs, rfl⟩
    exact ⟨schema, hschema, map_eq_ok_iff.2 ⟨_, mapM_eq_ok_iff.2 ⟨pairs, hitems, rfl,
      fun q hq => (hone schema hschema q.1 q.2).1 (hpairs q hq)⟩, rfl⟩⟩

theorem coerce_scalar_eq_ok_iff {property : String} {type : ScalarType} {v : Json}
    {x : EntityValue} :
    coerce look property (.scalar type) v = .ok x ↔
      ∃ y, ScalarValue.ofJson? type v = some y ∧ x = .scalar y := by
  rw [coerce, map_eq_ok_iff]
  simp only [ScalarValue.coerce_eq_ok_iff]
  exact exists_congr fun y => and_congr_right fun _ => eq_comm

theorem coerce_listOfScalar_eq_ok_iff {property : String} {type : ScalarType} {v : Json}
    {x : EntityValue} :
    coerce look property (.listOfScalar type) v = .ok x ↔
      ∃ pairs : List (Json × ScalarValue), elements v = pairs.map Prod.fst ∧
        (∀ q ∈ pairs, ScalarValue.ofJson? type q.1 = some q.2) ∧
        x = .list (pairs.map Prod.snd) := by
  rw [coerce, map_eq_ok_iff]
  simp only [mapM_eq_ok_iff, ScalarValue.coerce_eq_ok_iff]
  constructor
  · rintro ⟨_, ⟨pairs, hitems, rfl, hpairs⟩, rfl⟩
    exact ⟨pairs, hitems, hpairs, rfl⟩
  · rintro ⟨pairs, hitems, hpairs, rfl⟩
    exact ⟨_, ⟨pairs, hitems, rfl, hpairs⟩, rfl⟩

/-! ## What a field stands for -/

/-- A field of a payload, which may be missing, stands for a value of a kind. -/
inductive Reads (look : Lookup) : Kind → Option Json → EntityValue → Prop
  | absent (kind : Kind) : Reads look kind none .empty
  | null (kind : Kind) : Reads look kind (some .null) .empty
  | scalar {type : ScalarType} {v : Json} {x : ScalarValue}
      (hread : ScalarValue.ofJson? type v = some x) :
      Reads look (.scalar type) (some v) (.scalar x)
  | list {type : ScalarType} {v : Json} {pairs : List (Json × ScalarValue)}
      (hnull : v.isNull = false) (hitems : elements v = pairs.map Prod.fst)
      (hread : ∀ q ∈ pairs, ScalarValue.ofJson? type q.1 = some q.2) :
      Reads look (.listOfScalar type) (some v) (.list (pairs.map Prod.snd))
  | entity {target : String} {schema : Schema} {fields : List (String × Json)} {e : Entity}
      (hschema : look.require target = .ok schema) (hshape : e.ShapedBy schema)
      (hvalues : ∀ p ∈ schema.properties, ∀ x, e.value? p.name = some x →
        Reads look p.kind (Keyed.get? fields p.name) x) :
      Reads look (.reference target) (some (.object fields)) (.entity e)
  | entityList {target : String} {schema : Schema} {v : Json} {pairs : List (Json × Entity)}
      (hschema : look.require target = .ok schema) (hnull : v.isNull = false)
      (hitems : elements v = pairs.map Prod.fst)
      (hread : ∀ q ∈ pairs, Reads look (.reference target) (some q.1) (.entity q.2)) :
      Reads look (.listOfReference target) (some v) (.entityList (pairs.map Prod.snd))

theorem reads_entity_iff {target : String} {field : Option Json} {e : Entity} :
    Reads look (.reference target) field (.entity e) ↔
      ∃ schema fields, look.require target = .ok schema ∧ field = some (.object fields) ∧
        e.ShapedBy schema ∧ ∀ p ∈ schema.properties, ∀ x, e.value? p.name = some x →
          Reads look p.kind (Keyed.get? fields p.name) x := by
  constructor
  · intro h
    cases h with
    | entity hschema hshape hvalues => exact ⟨_, _, hschema, rfl, hshape, hvalues⟩
  · rintro ⟨schema, fields, hschema, rfl, hshape, hvalues⟩
    exact .entity hschema hshape hvalues

/-- Over a lawful look-up an entity is built exactly when it has the shape of its schema and
every value of it is read. -/
theorem build_eq_ok_iff (hlook : look.Lawful) {key : String} {schema : Schema}
    (hschema : look.require key = .ok schema) {payload : List (String × Json)} {e : Entity} :
    build look schema payload = .ok e ↔
      e.ShapedBy schema ∧ ∀ p ∈ schema.properties, ∀ x, e.value? p.name = some x →
        readField look p (Keyed.get? payload p.name) = .ok x := by
  rw [build_eq_assemble]
  exact assemble_eq_ok_iff (hlook.distinct_names key schema hschema).nodup_properties

/-- What a field stands for is read. -/
theorem Reads.readField_eq_ok (hlook : look.Lawful) {kind : Kind} {field : Option Json}
    {x : EntityValue} (h : Reads look kind field x) :
    ∀ p : Property, p.kind = kind → readField look p field = .ok x := by
  induction h with
  | absent kind => exact fun _ _ => rfl
  | null kind => exact fun _ _ => rfl
  | scalar hread =>
      intro p hp
      rw [readField_of_ne_null (ScalarValue.isNull_of_ofJson? hread), hp]
      exact coerce_scalar_eq_ok_iff.2 ⟨_, hread, rfl⟩
  | list hnull hitems hread =>
      intro p hp
      rw [readField_of_ne_null hnull, hp]
      exact coerce_listOfScalar_eq_ok_iff.2 ⟨_, hitems, hread, rfl⟩
  | entity hschema hshape _ ih =>
      intro p hp
      rw [readField_of_ne_null rfl, hp]
      refine coerce_reference_eq_ok_iff.2 ⟨_, _, _, hschema, rfl, ?_, rfl⟩
      exact (build_eq_ok_iff hlook hschema).2 ⟨hshape, fun q hq x hx => ih q hq x hx q rfl⟩
  | entityList hschema hnull hitems hread ih =>
      intro p hp
      rw [readField_of_ne_null hnull, hp]
      refine coerce_listOfReference_eq_ok_iff.2 ⟨⟨_, hschema⟩, _, hitems, fun q hq => ?_, rfl⟩
      have hone := ih q hq ⟨p.name, _, []⟩ rfl
      obtain ⟨_, fields, -, hfields, -⟩ := reads_entity_iff.1 (hread q hq)
      have hnotNull : q.1.isNull = false := by
        rw [Option.some.inj hfields]
        rfl
      rwa [readField_of_ne_null hnotNull] at hone

/-- An object that is read as a reference stands for the entity, if this is so of its fields. -/
theorem reads_of_coerce_reference (hlook : look.Lawful) {v : Json}
    (hfields : ∀ fields, v = .object fields → ∀ name w, (name, w) ∈ fields →
      ∀ p x, readField look p (some w) = .ok x → Reads look p.kind (some w) x)
    {property target : String} {x : EntityValue}
    (h : coerce look property (.reference target) v = .ok x) :
    Reads look (.reference target) (some v) x := by
  obtain ⟨schema, fields, e, hschema, rfl, hbuild, rfl⟩ := coerce_reference_eq_ok_iff.1 h
  obtain ⟨hshape, hvalues⟩ := (build_eq_ok_iff hlook hschema).1 hbuild
  refine .entity hschema hshape fun p hp x hx => ?_
  have hread := hvalues p hp x hx
  cases hget : Keyed.get? fields p.name with
  | none =>
      rw [hget] at hread
      cases hread
      exact .absent p.kind
  | some w =>
      rw [hget] at hread
      exact hfields fields rfl p.name w (Keyed.mem_of_get?_eq_some hget) p x hread

/-- A value that is read stands for what it is read as, if this is so of the references that
it or its elements are read as. -/
theorem reads_of_references {v : Json}
    (href : ∀ w, w = v ∨ w ∈ elements v → ∀ property target x,
      coerce look property (.reference target) w = .ok x → Reads look (.reference target) (some w) x)
    {p : Property} {x : EntityValue} (h : readField look p (some v) = .ok x) :
    Reads look p.kind (some v) x := by
  cases hnull : v.isNull with
  | true =>
      cases v with
      | null =>
          cases h
          exact .null p.kind
      | _ => cases hnull
  | false =>
      rw [readField_of_ne_null hnull] at h
      generalize p.kind = kind at h
      cases kind with
      | scalar type =>
          obtain ⟨y, hread, rfl⟩ := coerce_scalar_eq_ok_iff.1 h
          exact .scalar hread
      | listOfScalar type =>
          obtain ⟨pairs, hitems, hread, rfl⟩ := coerce_listOfScalar_eq_ok_iff.1 h
          exact .list hnull hitems hread
      | reference target => exact href v (Or.inl rfl) p.name target x h
      | listOfReference target =>
          obtain ⟨⟨schema, hschema⟩, pairs, hitems, hread, rfl⟩ :=
            coerce_listOfReference_eq_ok_iff.1 h
          refine .entityList hschema hnull hitems fun q hq => ?_
          have hmem : q.1 ∈ elements v := hitems ▸ List.mem_map.2 ⟨q, hq, rfl⟩
          exact href q.1 (Or.inr hmem) p.name target (.entity q.2) (hread q hq)

/-- What is read from a value is what it stands for. -/
theorem reads_of_readField (hlook : look.Lawful) (v : Json) :
    ∀ p x, readField look p (some v) = .ok x → Reads look p.kind (some v) x := by
  induction v using Json.valueInduction with
  | leaf v harray hobject =>
      intro p x h
      refine reads_of_references (fun w hw property target y hread => ?_) h
      -- a leaf is its own only element, and it is not read as a reference
      have hself : w = v := by
        rcases hw with rfl | hw
        · rfl
        · cases v with
          | array items => exact absurd rfl (harray items)
          | _ => exact List.mem_singleton.1 hw
      obtain ⟨_, fields, _, -, hfields, -⟩ := coerce_reference_eq_ok_iff.1 hread
      exact absurd (hself ▸ hfields) (hobject fields)
  | array items ih =>
      intro p x h
      refine reads_of_references (fun w hw property target y hread => ?_) h
      -- what is read as a reference is an object, and so an item and not the array
      obtain ⟨_, fields, _, -, hfields, -⟩ := coerce_reference_eq_ok_iff.1 hread
      rcases hw with rfl | hw
      · cases hfields
      · refine ih w hw ⟨property, .reference target, []⟩ y ?_
        rwa [readField_of_ne_null (by rw [hfields]; rfl)]
  | object fields ih =>
      intro p x h
      refine reads_of_references (fun w hw property target y hread => ?_) h
      -- an object is its own only element
      have hself : w = .object fields := by
        rcases hw with rfl | hw
        · rfl
        · exact List.mem_singleton.1 hw
      subst hself
      refine reads_of_coerce_reference hlook (fun fields' heq name w hmem => ?_) hread
      cases heq
      exact ih name w hmem

/-- Reading a field gives the value that it stands for, and fails if there is none. -/
theorem readField_eq_ok_iff (hlook : look.Lawful) {p : Property} {field : Option Json}
    {x : EntityValue} : readField look p field = .ok x ↔ Reads look p.kind field x := by
  constructor
  · intro h
    cases field with
    | none =>
        cases h
        exact .absent p.kind
    | some v => exact reads_of_readField hlook v p x h
  · exact fun h => h.readField_eq_ok hlook p rfl

end Reading

end Entity

end SchemaCatalog
