import SchemaCatalog.Entity.Build

/-!
# Updating entities

An update is merged into a payload field by field. A field of the update replaces the
old one, except where a property refers to a single entity and both hold an object:
these are merged in turn, by the schema that the property refers to.
-/

set_option autoImplicit false

namespace SchemaCatalog.Payload

mutual

/-- The payload with the fields of an update merged into it. -/
def merge (look : Lookup) (schema : Schema) (base : List (String × Json)) :
    List (String × Json) → Except CatalogError (List (String × Json))
  | [] => .ok base
  | (key, new) :: rest => do
      let value ← mergeValue look (schema.kind? key) (Keyed.get? base key) new
      merge look schema (Keyed.insert base key value) rest

/-- The value of a field of a kind, from its old value and that of the update. -/
def mergeValue (look : Lookup) (kind? : Option Kind) (old? : Option Json) :
    Json → Except CatalogError Json
  | .object new =>
      match kind?, old? with
      | some (.reference target), some (.object old) => do
          let related ← look.require target
          .object <$> merge look related old new
      | _, _ => .ok (.object new)
  | new => .ok new

end

end SchemaCatalog.Payload

namespace SchemaCatalog.Entity

/-- The entity built again from its payload with an update merged into it. -/
def update (look : Lookup) (e : Entity) (changes : List (String × Json)) :
    Except CatalogError Entity := do
  let schema ← look.require e.schemaKey
  let merged ← Payload.merge look schema e.toFields changes
  build look schema merged

end SchemaCatalog.Entity
