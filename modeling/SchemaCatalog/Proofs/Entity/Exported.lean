import SchemaCatalog.Proofs.Calendar.Written
import SchemaCatalog.Proofs.Entity.Reading

/-!
# Entities written and read again

A value conforms to a kind when it is empty or has the shape that the kind asks for, with
entities of the schema referred to at every depth (`EntityValue.Conforms`); whatever is read
from a payload does (`Entity.Reads.conforms`).

A conforming value is read back from what is written for it, if none of its scalars is written
as null (`EntityValue.Conforms.reads_toJson`). Only a number that is not finite and a document
that is null would be, and the latter is never read (`Entity.Reads.ne_of_holds`).
-/

set_option autoImplicit false

namespace SchemaCatalog

/-! ## Scalars -/

namespace ScalarValue

/-- The type of a scalar. -/
def type : ScalarValue → ScalarType
  | .string _ => .string
  | .number _ => .number
  | .boolean _ => .boolean
  | .date _ => .date
  | .time _ => .time
  | .document _ => .document

/-- A scalar that is not written as null is read back from what is written. -/
theorem ofJson?_toJson {x : ScalarValue} (h : x.toJson.isNull = false) :
    ofJson? x.type x.toJson = some x := by
  cases x with
  | string s => rfl
  | number x =>
      cases hfinite : x.isFinite with
      | true => simp [type, toJson, Json.double, hfinite, ofJson?, JsonNumber.toBinary64]
      | false =>
          rw [toJson, Json.double, hfinite] at h
          cases h
  | boolean b => rfl
  | date d =>
      rw [type, toJson, ofJson?, Date.trim_toText, Date.ofText?_toText]
      rfl
  | time t =>
      rw [type, toJson, ofJson?, Time.trim_toText, Time.ofText?_toText]
      rfl
  | document v =>
      cases v with
      | null => cases h
      | bool b => rfl
      | number n => rfl
      | string s => rfl
      | array items => rfl
      | object fields => rfl

/-- What is read as a scalar of a type has that type, and is no document that is null. -/
theorem type_of_ofJson? {type : ScalarType} {v : Json} {x : ScalarValue}
    (h : ofJson? type v = some x) : x.type = type ∧ x ≠ .document .null := by
  rw [ofJson?.eq_def] at h
  split at h
  · cases h
    exact ⟨rfl, nofun⟩
  · cases h
    exact ⟨rfl, nofun⟩
  · cases h
    exact ⟨rfl, nofun⟩
  · cases h
    exact ⟨rfl, nofun⟩
  · obtain ⟨n, -, rfl⟩ := Option.map_eq_some_iff.1 h
    exact ⟨rfl, nofun⟩
  · cases h
    exact ⟨rfl, nofun⟩
  · obtain ⟨b, -, rfl⟩ := Option.map_eq_some_iff.1 h
    exact ⟨rfl, nofun⟩
  · obtain ⟨d, -, rfl⟩ := Option.map_eq_some_iff.1 h
    exact ⟨rfl, nofun⟩
  · obtain ⟨t, -, rfl⟩ := Option.map_eq_some_iff.1 h
    exact ⟨rfl, nofun⟩
  · cases h
  · rename_i hnull
    cases h
    exact ⟨rfl, fun heq => hnull (ScalarValue.document.inj heq)⟩
  · cases h

/-- Only a number that is not finite and a document that is null are written as null. -/
theorem isNull_toJson {x : ScalarValue} (hnumber : ∀ n, x = .number n → n.isFinite = true)
    (hdocument : x ≠ .document .null) : x.toJson.isNull = false := by
  cases x with
  | string s => rfl
  | number n =>
      rw [toJson, Json.double, hnumber n rfl]
      rfl
  | boolean b => rfl
  | date d => rfl
  | time t => rfl
  | document v =>
      cases v with
      | null => exact absurd rfl hdocument
      | _ => rfl

end ScalarValue

/-! ## Values that fit a kind -/

namespace EntityValue

/-- A value holds a scalar, itself or at any depth of an entity. -/
inductive Holds : EntityValue → ScalarValue → Prop
  | scalar (x : ScalarValue) : Holds (.scalar x) x
  | list {xs : List ScalarValue} {x : ScalarValue} (hx : x ∈ xs) : Holds (.list xs) x
  | entity {e : Entity} {name : String} {v : EntityValue} {x : ScalarValue}
      (hv : (name, v) ∈ e.values) (hx : Holds v x) : Holds (.entity e) x
  | entityList {es : List Entity} {e : Entity} {x : ScalarValue} (he : e ∈ es)
      (hx : Holds (.entity e) x) : Holds (.entityList es) x

@[simp]
theorem not_holds_empty (x : ScalarValue) : ¬ empty.Holds x := nofun

@[simp]
theorem holds_scalar_iff {x y : ScalarValue} : (scalar y).Holds x ↔ x = y := by
  constructor
  · rintro ⟨⟩
    rfl
  · rintro rfl
    exact .scalar x

@[simp]
theorem holds_list_iff {xs : List ScalarValue} {x : ScalarValue} : (list xs).Holds x ↔ x ∈ xs := by
  constructor
  · rintro ⟨⟩
    assumption
  · exact .list

@[simp]
theorem holds_entity_iff {e : Entity} {x : ScalarValue} :
    (entity e).Holds x ↔ ∃ q ∈ e.values, q.2.Holds x := by
  constructor
  · intro h
    cases h with
    | entity hv hx => exact ⟨_, hv, hx⟩
  · rintro ⟨q, hq, hx⟩
    exact .entity hq hx

@[simp]
theorem holds_entityList_iff {es : List Entity} {x : ScalarValue} :
    (entityList es).Holds x ↔ ∃ e ∈ es, (entity e).Holds x := by
  constructor
  · intro h
    cases h with
    | entityList he hx => exact ⟨_, he, hx⟩
  · rintro ⟨e, he, hx⟩
    exact .entityList he hx

/-- A value fits a kind when it is empty or has the shape that the kind asks for, at every
depth. -/
inductive Conforms (look : Lookup) : Kind → EntityValue → Prop
  | empty (kind : Kind) : Conforms look kind .empty
  | scalar (x : ScalarValue) : Conforms look (.scalar x.type) (.scalar x)
  | list {type : ScalarType} {xs : List ScalarValue} (htype : ∀ x ∈ xs, x.type = type) :
      Conforms look (.listOfScalar type) (.list xs)
  | entity {target : String} {schema : Schema} {e : Entity}
      (hschema : look.require target = .ok schema) (hshape : e.ShapedBy schema)
      (hvalues : ∀ p ∈ schema.properties, ∀ v, e.value? p.name = some v → Conforms look p.kind v) :
      Conforms look (.reference target) (.entity e)
  | entityList {target : String} {schema : Schema} {es : List Entity}
      (hschema : look.require target = .ok schema)
      (hes : ∀ e ∈ es, Conforms look (.reference target) (.entity e)) :
      Conforms look (.listOfReference target) (.entityList es)

end EntityValue

namespace Entity

/-- An entity holds a scalar at any depth. -/
def Holds (e : Entity) (x : ScalarValue) : Prop := (EntityValue.entity e).Holds x

variable {look : Lookup}

/-- What a field stands for fits the kind. -/
theorem Reads.conforms {kind : Kind} {field : Option Json} {v : EntityValue}
    (h : Reads look kind field v) : v.Conforms look kind := by
  induction h with
  | absent kind => exact .empty kind
  | null kind => exact .empty kind
  | scalar hread => exact (ScalarValue.type_of_ofJson? hread).1 ▸ .scalar _
  | list _ _ hread =>
      refine .list fun x hx => ?_
      obtain ⟨q, hq, rfl⟩ := List.mem_map.1 hx
      exact (ScalarValue.type_of_ofJson? (hread q hq)).1
  | entity hschema hshape _ ih => exact .entity hschema hshape ih
  | entityList hschema _ _ _ ih =>
      refine .entityList hschema fun e he => ?_
      obtain ⟨q, hq, rfl⟩ := List.mem_map.1 he
      exact ih q hq

/-- No document that is null is read. -/
theorem Reads.ne_of_holds {kind : Kind} {field : Option Json} {v : EntityValue}
    (h : Reads look kind field v) : ¬ v.Holds (.document .null) := by
  induction h with
  | absent kind => exact nofun
  | null kind => exact nofun
  | scalar hread =>
      intro hholds
      cases hholds
      exact (ScalarValue.type_of_ofJson? hread).2 rfl
  | list _ _ hread =>
      intro hholds
      cases hholds with
      | list hx =>
          obtain ⟨q, hq, heq⟩ := List.mem_map.1 hx
          exact (ScalarValue.type_of_ofJson? (hread q hq)).2 heq
  | entity hschema hshape _ ih =>
      intro hholds
      cases hholds with
      | entity hv hx =>
          -- a value of the entity is the value of a declared property, and so was read
          obtain ⟨p, hp, -, hvalue⟩ := hshape.exists_property hv
          exact ih p hp _ hvalue hx
  | entityList hschema _ _ _ ih =>
      intro hholds
      cases hholds with
      | entityList he hx =>
          obtain ⟨q, hq, rfl⟩ := List.mem_map.1 he
          exact ih q hq hx

/-! ## Writing and reading again -/

theorem itemsOf_eq_map (es : List Entity) :
    EntityValue.itemsOf es = es.map fun e => .object e.toFields := by
  induction es with
  | nil => rfl
  | cons e rest ih =>
      obtain ⟨schemaKey, values⟩ := e
      rw [EntityValue.itemsOf, ih]
      rfl

theorem fieldsOf_eq_map (values : List (String × EntityValue)) :
    EntityValue.fieldsOf values = values.map fun e => (e.1, e.2.toJson) := by
  induction values with
  | nil => rfl
  | cons first rest ih =>
      obtain ⟨name, v⟩ := first
      rw [EntityValue.fieldsOf, ih]
      rfl

/-- What is written for a property is its value. -/
theorem get?_toFields (e : Entity) (name : String) :
    Keyed.get? e.toFields name = (e.value? name).map EntityValue.toJson := by
  rw [toFields, fieldsOf_eq_map]
  exact Keyed.get?_map EntityValue.toJson e.values name

end Entity

namespace EntityValue

variable {look : Lookup}

theorem toJson_entity (e : Entity) : toJson (.entity e) = .object e.toFields := by
  obtain ⟨schemaKey, values⟩ := e
  rfl

/-- A value that fits a kind is read back, if none of its scalars is written as null. -/
theorem Conforms.reads_toJson {kind : Kind} {v : EntityValue} (h : Conforms look kind v)
    (hwritten : ∀ x, v.Holds x → x.toJson.isNull = false) :
    Entity.Reads look kind (some v.toJson) v := by
  induction h with
  | empty kind => exact .null kind
  | scalar x => exact .scalar (ScalarValue.ofJson?_toJson (hwritten x (.scalar x)))
  | @list type xs htype =>
      have hxs : (xs.map fun x => (x.toJson, x)).map Prod.snd = xs := by
        simp [Function.comp_def]
      have hread : Entity.Reads look (.listOfScalar type) (some (toJson (.list xs)))
          (.list ((xs.map fun x => (x.toJson, x)).map Prod.snd)) := by
        refine .list rfl ?_ ?_
        · simp [toJson, Entity.elements, Function.comp_def]
        · intro q hq
          obtain ⟨x, hx, rfl⟩ := List.mem_map.1 hq
          rw [← htype x hx]
          exact ScalarValue.ofJson?_toJson (hwritten x (.list hx))
      rwa [hxs] at hread
  | @entity target schema e hschema hshape _ ih =>
      rw [toJson_entity]
      -- the same entity is read, since each of its values is found under its name again
      refine .entity hschema hshape fun p hp v hv => ?_
      rw [Entity.get?_toFields, hv]
      exact ih p hp v hv fun x hx => hwritten x (.entity (Keyed.mem_of_get?_eq_some hv) hx)
  | @entityList target schema es hschema _ ih =>
      have hes : (es.map fun e => (toJson (.entity e), e)).map Prod.snd = es := by
        simp [Function.comp_def]
      have hread : Entity.Reads look (.listOfReference target) (some (toJson (.entityList es)))
          (.entityList ((es.map fun e => (toJson (.entity e), e)).map Prod.snd)) := by
        refine .entityList hschema rfl ?_ ?_
        · rw [toJson, Entity.elements, Entity.itemsOf_eq_map, List.map_map]
          exact List.map_congr_left fun e _ => (toJson_entity e).symm
        · intro q hq
          obtain ⟨e, he, rfl⟩ := List.mem_map.1 hq
          exact ih e he fun x hx => hwritten x (.entityList he hx)
      rwa [hes] at hread

end EntityValue

namespace Entity

/-- A value that was read is read back from what is written for it, if its numbers are finite. -/
theorem Reads.toJson {look : Lookup} {kind : Kind} {field : Option Json} {v : EntityValue}
    (h : Reads look kind field v) (hfinite : ∀ n, v.Holds (.number n) → n.isFinite = true) :
    Reads look kind (some v.toJson) v := by
  refine h.conforms.reads_toJson fun x hx => ScalarValue.isNull_toJson ?_ ?_
  · rintro n rfl
    exact hfinite n hx
  · rintro rfl
    exact h.ne_of_holds hx

end Entity

end SchemaCatalog
