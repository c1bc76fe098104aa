import SchemaCatalog.Calendar.Date
import SchemaCatalog.Calendar.Time
import SchemaCatalog.Json.Basic

/-!
# Entities

An entity is an instance of a schema: it has a value for every declared property. A
value is empty, or of the shape that the kind of the property asks for. `Entity.toFields`
writes an entity as an untyped payload again, in which an empty value is null.
-/

set_option autoImplicit false

namespace SchemaCatalog

/-- A scalar of one of the scalar types. -/
inductive ScalarValue where
  | string (value : String)
  | number (value : Binary64)
  | boolean (value : Bool)
  | date (value : Date)
  | time (value : Time)
  | document (value : Json)
deriving Repr

mutual

/-- The value of a property. -/
inductive EntityValue where
  | empty
  | scalar (value : ScalarValue)
  | list (values : List ScalarValue)
  | entity (value : Entity)
  | entityList (values : List Entity)

/-- An instance of a schema, with its values in the order of their names. -/
structure Entity where
  schemaKey : String
  values : List (String × EntityValue)

end

instance : Inhabited EntityValue := ⟨.empty⟩

instance : Inhabited Entity := ⟨⟨"", []⟩⟩

namespace ScalarValue

/-- A scalar as it stands in a payload; a number that is not finite becomes null. -/
def toJson : ScalarValue → Json
  | .string s => .string s
  | .number x => Json.double x
  | .boolean b => .bool b
  | .date d => .string d.toText
  | .time t => .string t.toText
  | .document v => v

/-- Equality of scalars, with numbers compared by value. -/
def sameValue : ScalarValue → ScalarValue → Bool
  | .string a, .string b => a == b
  | .number x, .number y => x.sameValue y
  | .boolean a, .boolean b => a == b
  | .date a, .date b => a == b
  | .time a, .time b => a == b
  | .document a, .document b => a.sameValue b
  | _, _ => false

/-- Equality of lists of scalars. -/
def sameValues : List ScalarValue → List ScalarValue → Bool
  | [], [] => true
  | a :: as, b :: bs => sameValue a b && sameValues as bs
  | _, _ => false

end ScalarValue

namespace EntityValue

def isEmpty : EntityValue → Bool
  | .empty => true
  | _ => false

mutual

/-- A value as it stands in a payload. -/
def toJson : EntityValue → Json
  | .empty => .null
  | .scalar v => v.toJson
  | .list vs => .array (vs.map ScalarValue.toJson)
  | .entity ⟨_, values⟩ => .object (fieldsOf values)
  | .entityList es => .array (itemsOf es)

/-- The values of an entity as they stand in a payload. -/
def fieldsOf : List (String × EntityValue) → List (String × Json)
  | [] => []
  | (name, v) :: rest => (name, toJson v) :: fieldsOf rest

/-- Some entities as they stand in a payload. -/
def itemsOf : List Entity → List Json
  | [] => []
  | ⟨_, values⟩ :: es => .object (fieldsOf values) :: itemsOf es

end

mutual

/-- Equality of values, with numbers compared by value. -/
def sameValue : EntityValue → EntityValue → Bool
  | .empty, .empty => true
  | .scalar a, .scalar b => a.sameValue b
  | .list as, .list bs => ScalarValue.sameValues as bs
  | .entity ⟨k, as⟩, .entity ⟨l, bs⟩ => k == l && sameFields as bs
  | .entityList as, .entityList bs => sameEntities as bs
  | _, _ => false

/-- Equality of the values of two entities. -/
def sameFields : List (String × EntityValue) → List (String × EntityValue) → Bool
  | [], [] => true
  | (k, a) :: as, (l, b) :: bs => k == l && sameValue a b && sameFields as bs
  | _, _ => false

/-- Equality of lists of entities. -/
def sameEntities : List Entity → List Entity → Bool
  | [], [] => true
  | ⟨k, a⟩ :: as, ⟨l, b⟩ :: bs => k == l && sameFields a b && sameEntities as bs
  | _, _ => false

end

end EntityValue

namespace Entity

/-- The value of a property. -/
def value? (e : Entity) (property : String) : Option EntityValue := Keyed.get? e.values property

/-- The entity as an untyped payload. -/
def toFields (e : Entity) : List (String × Json) := EntityValue.fieldsOf e.values

/-- Equality of entities, with numbers compared by value. -/
def sameValue (a b : Entity) : Bool :=
  a.schemaKey == b.schemaKey && EntityValue.sameFields a.values b.values

end Entity

end SchemaCatalog
