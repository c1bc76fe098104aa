import SchemaCatalog.Json.Basic
import SchemaCatalog.Schema.Kind

/-!
# Schemas

A schema is a structural type that users define: a key, declared properties and
computed ones, each with a kind. Through the kinds that refer to other schemas it is
composed of them; `children` lists the keys it is composed of. `duplicateNames` lists
the names that two of its properties share, which a saved schema must not have.
-/

set_option autoImplicit false

namespace SchemaCatalog

/-- A declared property; its configurations are kept and not looked at. -/
structure Property where
  name : String
  kind : Kind
  configurations : List Json := []
deriving Repr, Inhabited

/-- A computed property; its expression is kept and not evaluated. -/
structure ComputedProperty where
  name : String
  kind : Kind
  expression : String
deriving Repr, Inhabited

/-- A structural type. Its identifier and its version are numbers of 64 bits; here they are
natural numbers, which makes no difference in fewer than `2 ^ 64` saves
(`Catalog.counters_bounded`). -/
structure Schema where
  /-- Given by the store when the schema is first saved. One that the schema brings along is
  kept, and never counted on. -/
  id : Option Nat
  key : String
  name : String
  description : Option String
  properties : List Property
  computed : List ComputedProperty
  /-- How often the schema has been saved; zero before that. Each save adds one. -/
  version : Nat
deriving Repr, Inhabited

namespace Schema

/-- The names and kinds of all properties, the declared ones first. -/
def members (s : Schema) : List (String × Kind) :=
  s.properties.map (fun p => (p.name, p.kind)) ++ s.computed.map (fun p => (p.name, p.kind))

/-- The first declared property with a name. -/
def declared? (s : Schema) (name : String) : Option Property :=
  s.properties.find? fun p => p.name == name

/-- The kind of the first declared property with a name or else of the first computed one. -/
def kind? (s : Schema) (name : String) : Option Kind := Keyed.get? s.members name

/-- The properties that refer to other schemas, with the keys referred to. -/
def references (s : Schema) : List (String × String) :=
  s.members.filterMap fun m => m.2.target?.map fun target => (m.1, target)

/-- A list of texts in increasing order, each once. -/
def sortedKeys (keys : List String) : List String :=
  Keyed.keys (Keyed.ofList (keys.map fun k => (k, ())))

/-- The keys of the schemas that this one is composed of, in increasing order. -/
def children (s : Schema) : List String := sortedKeys (s.references.map Prod.snd)

/-- The names of a list that occur before, each at its second occurrence. -/
def repeats (seen reported : List String) : List String → List String
  | [] => []
  | name :: rest =>
      if name ∈ seen then
        if name ∈ reported then repeats seen reported rest
        else name :: repeats seen (name :: reported) rest
      else repeats (name :: seen) reported rest

/-- The names that more than one property has, each once. -/
def duplicateNames (s : Schema) : List String := repeats [] [] (s.members.map Prod.fst)

/-- The schema with the declared and computed properties of another behind its own,
without their configurations. -/
def extend (s : Schema) (other : Schema) : Schema :=
  { s with
    properties := s.properties ++ other.properties.map fun p => { p with configurations := [] }
    computed := s.computed ++ other.computed }

end Schema

end SchemaCatalog
