import SchemaCatalog.Catalog.Basic
import SchemaCatalog.Entity.Basic

/-!
# Building entities

An entity is built from an untyped payload, property by property. What is missing or
null is empty; every other value has to fit the kind of its property, where texts are
taken for the scalars that they stand for and a single value for a list of one. What
the payload holds besides is ignored.
-/

set_option autoImplicit false

namespace SchemaCatalog

/-- A value that does not fit a property. -/
def mismatch {α : Type} (property expected : String) (v : Json) : Except CatalogError α :=
  .error (.mismatch property expected v)

namespace ScalarValue

/-- The truth value that a text stands for. -/
def boolean? (s : String) : Option Bool :=
  let word := Text.lowerAscii s
  if word = "true" then some true else if word = "false" then some false else none

/-- The scalar of a type that a value stands for; texts lose the blank characters at
their ends, except where a text is wanted. -/
def ofJson? : ScalarType → Json → Option ScalarValue
  | .string, .string s => some (.string s)
  | .string, .number n => some (.string (Json.numberLiteral n))
  | .string, .bool b => some (.string (if b then "true" else "false"))
  | .number, .number n => some (.number n.toBinary64)
  | .number, .string s => .number <$> Number.double? (Text.trim s)
  | .boolean, .bool b => some (.boolean b)
  | .boolean, .string s => .boolean <$> boolean? (Text.trim s)
  | .date, .string s => .date <$> Date.ofText? (Text.trim s)
  | .time, .string s => .time <$> Time.ofText? (Text.trim s)
  | .document, .null => none
  | .document, v => some (.document v)
  | _, _ => none

/-- The scalar that a value stands for, which has to fit the type. -/
def coerce (property : String) (type : ScalarType) (v : Json) :
    Except CatalogError ScalarValue :=
  match ofJson? type v with
  | some value => .ok value
  | none => mismatch property type.name v

end ScalarValue

namespace Entity

/-- The items of an array, or a value alone. -/
def elements : Json → List Json
  | .array items => items
  | v => [v]

/-- The kind of value expected for an entity of a schema. -/
def expected (schema : Schema) : String := (Kind.reference schema.key).display

/-- The entity of a schema whose values are read property by property. -/
def assemble (schema : Schema) (read : Property → Except CatalogError EntityValue) :
    Except CatalogError Entity := do
  let values ← schema.properties.mapM fun p => do
    let v ← read p
    pure (p.name, v)
  pure ⟨schema.key, Keyed.ofList values⟩

mutual

/-- The value of a property of a kind, from what the payload holds for it. -/
def coerce (look : Lookup) (property : String) : Kind → Json → Except CatalogError EntityValue
  | .scalar type, v => .scalar <$> ScalarValue.coerce property type v
  | .listOfScalar type, v => .list <$> (elements v).mapM (ScalarValue.coerce property type)
  | .reference target, .object fields => do
      let schema ← look.require target
      .entity <$> assemble schema fun p => valueIn look p fields
  | .reference target, v => do
      let schema ← look.require target
      mismatch property (expected schema) v
  | .listOfReference target, .array items => do
      let schema ← look.require target
      .entityList <$> coerceItems look property schema items
  | .listOfReference target, .object fields => do
      let schema ← look.require target
      let e ← assemble schema fun p => valueIn look p fields
      pure (.entityList [e])
  | .listOfReference target, v => do
      let schema ← look.require target
      mismatch property (expected schema) v

/-- The entities of a schema from the items of an array. -/
def coerceItems (look : Lookup) (property : String) (schema : Schema) :
    List Json → Except CatalogError (List Entity)
  | [] => .ok []
  | .object fields :: rest => do
      let e ← assemble schema fun p => valueIn look p fields
      let es ← coerceItems look property schema rest
      pure (e :: es)
  | v :: _ => mismatch property (expected schema) v

/-- The value of a property from the fields of a payload. -/
def valueIn (look : Lookup) (p : Property) :
    List (String × Json) → Except CatalogError EntityValue
  | [] => .ok .empty
  | (name, v) :: rest =>
      if name = p.name then
        if v.isNull then .ok .empty else coerce look p.name p.kind v
      else valueIn look p rest

end

/-- The entity of a schema from a payload. -/
def build (look : Lookup) (schema : Schema) (payload : List (String × Json)) :
    Except CatalogError Entity :=
  assemble schema fun p => valueIn look p payload

/-- The entity of the schema with a key from a payload. -/
def buildFor (look : Lookup) (schemaKey : String) (payload : List (String × Json)) :
    Except CatalogError Entity := do
  let schema ← look.require schemaKey
  build look schema payload

/-- What is read for a property depends on the payload only through its first field with
the name of the property. -/
theorem valueIn_eq (look : Lookup) (p : Property) (payload : List (String × Json)) :
    valueIn look p payload =
      match Keyed.get? payload p.name with
      | none => .ok .empty
      | some v => if v.isNull then .ok .empty else coerce look p.name p.kind v := by
  induction payload with
  | nil => simp [valueIn, Keyed.get?]
  | cons e rest ih =>
    obtain ⟨name, v⟩ := e
    by_cases h : name = p.name
    · simp [valueIn, Keyed.get?, h]
    · have hget : Keyed.get? ((name, v) :: rest) p.name = Keyed.get? rest p.name := by
        simp [Keyed.get?, h]
      rw [hget, ← ih, valueIn, if_neg h]

end Entity

end SchemaCatalog
