import SchemaCatalog.Form.Validation
import SchemaCatalog.Linker.Basic
import SchemaCatalog.Linker.PathTree

/-!
# Checking record linkers

The paths in the expressions of a linker have to lead to properties of the transaction
schema, and its fields to properties of the record schema. Either side is checked as
the form of its paths, so a path is judged by its first segment that leads nowhere.
-/

set_option autoImplicit false

namespace SchemaCatalog.RecordLinker

/-- The paths that the expressions refer to, in the order of the fields. -/
def sourcePaths (linker : RecordLinker) : List String :=
  linker.fieldMappings.flatMap fun m => DataPath.extract m.2

/-- The faults of paths on the schema with a key. -/
def checkPaths (look : Lookup) (schemaKey : String) (paths : List String) :
    Except CatalogError (List ValidationError) := do
  let defects ← (PathTree.formOf paths).validate look true schemaKey
  pure (defects.map FormDefect.report)

/-- The faults of a linker on both sides. -/
def check (look : Lookup) (transactionKey : String) (linker : RecordLinker) :
    Except CatalogError LinkerErrors := do
  if linker.fieldMappings.isEmpty then throw (.emptyMapping linker.recordDefinitionKey)
  let values ← checkPaths look transactionKey linker.sourcePaths
  let keys ← checkPaths look linker.recordSchemaKey (Keyed.keys linker.fieldMappings)
  pure ⟨linker.recordDefinitionKey, values, keys⟩

/-- The linker has no fault; otherwise all of them together are the error. -/
def validate (look : Lookup) (transactionKey : String) (linker : RecordLinker) :
    Except CatalogError Unit := do
  let errors ← linker.check look transactionKey
  if errors.isEmpty then pure () else throw (.invalidLinker errors)

end SchemaCatalog.RecordLinker
