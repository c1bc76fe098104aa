import SchemaCatalog.Catalog.Basic

/-!
# Related schemas

Everything that a schema refers to, directly or not, grouped under the key of the
schema that refers to it. Each schema is looked into once, in the order in which the
references are met; a schema without references has no group.
-/

set_option autoImplicit false

namespace SchemaCatalog

/-- The keys that were looked into, and the groups found so far. -/
structure Relations where
  expanded : List String
  groups : List (String × List Schema)

namespace Relations

/-- The schemas that a schema refers to, each once, in the order of first reference. -/
def targets (look : Lookup) (schema : Schema) : Except CatalogError (List Schema) :=
  (schema.references.map Prod.snd).eraseDups.mapM (Lookup.require look)

/-- The relations with those of a schema and of all that it refers to. The first argument
bounds the schemas on the way. -/
def expand (look : Lookup) : Nat → Relations → Schema → Except CatalogError Relations
  | 0, r, _ => .ok r
  | bound + 1, r, schema =>
      if schema.key ∈ r.expanded then .ok r
      else do
        let related ← targets look schema
        let r := { r with expanded := schema.key :: r.expanded }
        if related.isEmpty then pure r
        else
          let r := { r with groups := Keyed.insert r.groups schema.key related }
          related.foldlM (expand look bound) r

end Relations

/-- The schemas related to a key, grouped under the key of the schema that refers to them. -/
def Catalog.related (c : Catalog) (key : String) :
    Except CatalogError (List (String × List Schema)) := do
  let root ← c.require key
  let r ← Relations.expand c.lookup (c.store.size + 1) ⟨[], []⟩ root
  pure r.groups

end SchemaCatalog
