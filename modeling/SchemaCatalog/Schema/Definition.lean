import SchemaCatalog.Schema.Basic
import SchemaCatalog.Schema.ScalarCodec

/-!
# Schema definitions

The form in which schemas are exchanged. A definition is decoded as a record first;
then the kinds of its attributes are read, the declared ones before the computed ones,
and the first that stands for no kind is the error.
-/

set_option autoImplicit false

namespace SchemaCatalog

/-- A declared attribute as it is written. -/
structure AttributeDefinition where
  name : String
  wire : WireKind
  configurations : List Json
deriving Repr

/-- A computed attribute as it is written. -/
structure ComputedDefinition where
  name : String
  wire : WireKind
  expression : String
deriving Repr

/-- A schema as it is written. -/
structure SchemaDefinition where
  id : Option Nat
  key : String
  name : String
  description : Option String
  attributes : List AttributeDefinition
  computed : List ComputedDefinition
  version : Nat
deriving Repr

open Decode

/-! ## Decoding -/

namespace AttributeDefinition

def layout : Layout :=
  ⟨"AttributeDefinition",
    ["name", "type", "contentType", "entitySchema", "attributeConfigurations"], []⟩

def decode (r : Reading) : Except DecodeError AttributeDefinition := do
  let e ← layout.entries r
  e.close <|
    (fun name type content entity configurations =>
      ⟨name, ⟨type, content, entity⟩, configurations⟩)
    <$> e.field "name" text none
    <*> e.field "type" text none
    <*> e.field "contentType" (optional text) (some none)
    <*> e.field "entitySchema" (optional text) (some none)
    <*> e.field "attributeConfigurations" (list json) (some [])

end AttributeDefinition

namespace ComputedDefinition

def layout : Layout :=
  ⟨"ComputedAttributeDefinition",
    ["name", "type", "contentType", "entitySchema", "expression"], []⟩

def decode (r : Reading) : Except DecodeError ComputedDefinition := do
  let e ← layout.entries r
  e.close <|
    (fun name type content entity expression => ⟨name, ⟨type, content, entity⟩, expression⟩)
    <$> e.field "name" text none
    <*> e.field "type" text none
    <*> e.field "contentType" (optional text) (some none)
    <*> e.field "entitySchema" (optional text) (some none)
    <*> e.field "expression" text (some "")

end ComputedDefinition

namespace SchemaDefinition

def layout : Layout :=
  ⟨"SchemaDefinition",
    ["id", "key", "name", "description", "attributes", "computedAttributes", "version"], []⟩

def decode (r : Reading) : Except DecodeError SchemaDefinition := do
  let e ← layout.entries r
  e.close <|
    SchemaDefinition.mk
    <$> e.field "id" (optional nat) (some none)
    <*> e.field "key" text none
    <*> e.field "name" text (some "")
    <*> e.field "description" (optional text) (some none)
    <*> e.field "attributes" (list AttributeDefinition.decode) (some [])
    <*> e.field "computedAttributes" (list ComputedDefinition.decode) (some [])
    <*> e.field "version" nat (some 0)

/-- The schema that a definition stands for. -/
def toSchema? (d : SchemaDefinition) : Except DefinitionError Schema := do
  let properties ← d.attributes.mapM fun a => do
    pure ⟨a.name, ← Kind.ofWire? a.name a.wire, a.configurations⟩
  let computed ← d.computed.mapM fun a => do
    pure ⟨a.name, ← Kind.ofWire? a.name a.wire, a.expression⟩
  pure ⟨d.id, d.key, d.name, d.description, properties, computed, d.version⟩

end SchemaDefinition

namespace Schema

/-- The schema that a reading stands for. -/
def decode (r : Reading) : Except DecodeError Schema := do
  let d ← SchemaDefinition.decode r
  d.toSchema?.mapError .definition

/-! ## Encoding -/

/-- A field that is written only when there is a value. -/
def optionalField (name : String) : Option Json → List (String × Json)
  | none => []
  | some v => [(name, v)]

/-- The fields that write a kind. -/
def kindFields (k : Kind) : List (String × Json) :=
  let w := k.toWire
  [("type", .string w.type)]
    ++ optionalField "contentType" (w.contentType.map .string)
    ++ optionalField "entitySchema" (w.entitySchema.map .string)

def encodeProperty (p : Property) : Json :=
  .object (("name", .string p.name) :: kindFields p.kind
    ++ (if p.configurations.isEmpty then []
        else [("attributeConfigurations", .array p.configurations)]))

def encodeComputed (p : ComputedProperty) : Json :=
  .object (("name", .string p.name) :: kindFields p.kind
    ++ [("expression", .string p.expression)])

/-- The definition of a schema. -/
def encode (s : Schema) : Json :=
  .object (optionalField "id" (s.id.map .nat)
    ++ [("key", .string s.key), ("name", .string s.name)]
    ++ optionalField "description" (s.description.map .string)
    ++ [("attributes", .array (s.properties.map encodeProperty)),
        ("computedAttributes", .array (s.computed.map encodeComputed)),
        ("version", .nat s.version)])

end Schema

end SchemaCatalog
