import SchemaCatalog.Composition.Graph
import SchemaCatalog.Error
import SchemaCatalog.Schema.Basic

/-!
# The store

The store keeps schemas under their keys, the composition graph between them and the
last identifier given out. A schema is saved only over the version that it was read
at; it then gets the next version and, if it has none, the next identifier.
-/

set_option autoImplicit false

namespace SchemaCatalog

/-- The stored schemas, the graph of their composition, and the last identifier. -/
structure Store where
  schemas : List (String × Schema)
  graph : CompositionGraph
  /-- Grows from zero by one at most with each save. Like versions it is a number of 64 bits, and
  no run comes near their bound (`Catalog.counters_bounded`). -/
  lastId : Nat
deriving Repr, Inhabited

namespace Store

def empty : Store := ⟨[], .empty, 0⟩

/-- The schema stored under a key. -/
def get? (s : Store) (key : String) : Option Schema := Keyed.get? s.schemas key

/-- The stored keys, in increasing order. -/
def keys (s : Store) : List String := Keyed.keys s.schemas

def size (s : Store) : Nat := s.schemas.length

def isEmpty (s : Store) : Bool := s.schemas.isEmpty

/-- The stored schemas that are composed of a key, nearest first. -/
def ancestors (s : Store) (key : String) : List Schema :=
  (s.graph.ancestors key).filterMap s.get?

/-- The version stored under a key, zero if there is none. -/
def version (s : Store) (key : String) : Nat := ((s.get? key).map Schema.version).getD 0

/-- The error of a schema that was not read at the stored version. -/
def versionConflict? (s : Store) (schema : Schema) : Option CatalogError :=
  match s.get? schema.key with
  | some stored =>
      if stored.version = schema.version then none
      else some (.staleVersion schema.key schema.version stored.version)
  | none =>
      if schema.version = 0 then none else some (.unknownVersion schema.key schema.version)

/-- A schema with its next version, and with the next identifier if it has none. -/
def stamp (s : Store) (schema : Schema) : Schema :=
  { schema with id := some (schema.id.getD (s.lastId + 1)), version := schema.version + 1 }

/-- The store with a schema in it, whatever its version. -/
def put (s : Store) (schema : Schema) : Store :=
  { schemas := Keyed.insert s.schemas schema.key (s.stamp schema)
    graph := s.graph.setChildren schema.key schema.children
    lastId := if schema.id.isNone then s.lastId + 1 else s.lastId }

/-- The schema as it is stored, and the store with it. -/
def save (s : Store) (schema : Schema) : Except CatalogError (Schema × Store) :=
  match s.versionConflict? schema with
  | some e => .error e
  | none => .ok (s.stamp schema, s.put schema)

theorem get?_put_self (s : Store) (schema : Schema) :
    (s.put schema).get? schema.key = some (s.stamp schema) :=
  Keyed.get?_insert_self _ _ _

theorem get?_put_of_ne (s : Store) (schema : Schema) {key : String} (h : key ≠ schema.key) :
    (s.put schema).get? key = s.get? key :=
  Keyed.get?_insert_of_ne _ _ h

end Store

end SchemaCatalog
