import SchemaCatalog.Form.Codec
import SchemaCatalog.Linker.Basic

/-!
# Record linkers as JSON

A linker may lack its mapping, which is then empty. The faults of a linker have all
their fields.
-/

set_option autoImplicit false

namespace SchemaCatalog

open Decode

namespace RecordLinker

def layout : Layout :=
  ⟨"RecordLinker", ["recordDefinitionKey", "recordSchemaKey", "fieldMappings"], []⟩

/-- The linker that a reading stands for. -/
def decode (r : Reading) : Except DecodeError RecordLinker := do
  let e ← layout.entries r
  e.close <|
    RecordLinker.mk
    <$> e.field "recordDefinitionKey" text none
    <*> e.field "recordSchemaKey" text none
    <*> e.field "fieldMappings" (mapOf text) (some [])

def encode (l : RecordLinker) : Json :=
  .object [("recordDefinitionKey", .string l.recordDefinitionKey),
    ("recordSchemaKey", .string l.recordSchemaKey),
    ("fieldMappings", .object (l.fieldMappings.map fun m => (m.1, .string m.2)))]

end RecordLinker

namespace LinkerErrors

def layout : Layout :=
  ⟨"LinkerErrors", ["recordDefinitionKey", "fieldValueErrors", "fieldKeyErrors"], []⟩

/-- The faults that a reading stands for. -/
def decode (r : Reading) : Except DecodeError LinkerErrors := do
  let e ← layout.entries r
  e.close <|
    LinkerErrors.mk
    <$> e.field "recordDefinitionKey" text none
    <*> e.field "fieldValueErrors" (list ValidationError.decode) none
    <*> e.field "fieldKeyErrors" (list ValidationError.decode) none

def encode (l : LinkerErrors) : Json :=
  .object [("recordDefinitionKey", .string l.recordDefinitionKey),
    ("fieldValueErrors", .array (l.fieldValueErrors.map ValidationError.encode)),
    ("fieldKeyErrors", .array (l.fieldKeyErrors.map ValidationError.encode))]

end LinkerErrors

end SchemaCatalog
