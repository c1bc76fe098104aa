import SchemaCatalog.Codec.Decode
import SchemaCatalog.Disk.Basic
import SchemaCatalog.Form.Basic
import SchemaCatalog.Json.Printer
import SchemaCatalog.Linker.Basic

/-!
# Errors of the catalog

Every way in which an operation can fail is a constructor that names the cause;
`CatalogError.message` holds all the wording.
-/

set_option autoImplicit false

namespace SchemaCatalog

/-- The calls that a store answers. -/
inductive StoreCall where
  | get
  | ancestors
  | save
deriving DecidableEq, Repr

def StoreCall.name : StoreCall → String
  | get => "get"
  | ancestors => "ancestors"
  | save => "save"

/-- Why an operation fails. -/
inductive CatalogError where
  | invalidPattern (pattern : String)
  | patternTooLarge (pattern : String)
  | blankRootKey
  | emptyMapping (recordDefinitionKey : String)
  | mismatch (property expected : String) (value : Json)
  | invalidKey (key pattern : String)
  | duplicateProperties (names : List String)
  | ownChild (key : String)
  | parentAsChild (child key : String)
  | staleVersion (key : String) (expected found : Nat)
  | unknownVersion (key : String) (version : Nat)
  | repeatedDefinition (key : String)
  | cyclicDefinitions (keys : List String)
  | schemaNotFound (key : String)
  | childNotFound (key : String)
  | propertyNotFound (schemaKey name : String)
  | invalidForm (defects : List FormDefect)
  | invalidLinker (errors : LinkerErrors)
  | emptyPath (path : String)
  | pathPastScalar (path name : String)
  | wrongType (path actual expected : String)
  | storeFailure (call : StoreCall) (key : String)
  | unreadable (fault : FileFault)
  | brokenText (cause : SyntaxCause) (line column : Nat)
  | invalidDefinition (error : DecodeError)
deriving Repr

namespace CatalogError

/-- What a message says of a conflict, a missing thing or a failed check. -/
def message : CatalogError → String
  | invalidPattern p => s!"Invalid key pattern '{p}': regex parse error:"
  | patternTooLarge p =>
      s!"Invalid key pattern '{p}': Compiled regex exceeds size limit of 10485760 bytes."
  | blankRootKey => "A root schema key is required to validate a form"
  | emptyMapping key => s!"Record linker '{key}' is missing its field mapping"
  | mismatch property expected value =>
      s!"Property '{property}' expects {expected}, got {value.compact}"
  | invalidKey key pattern => s!"Invalid schema key '{key}': must match {pattern}"
  | duplicateProperties names =>
      let list := ", ".intercalate names
      s!"Duplicate property names: {list}"
  | ownChild key => s!"Schema '{key}' cannot be a sub-schema of itself"
  | parentAsChild child key =>
      s!"Schema '{child}' is a parent of '{key}', cannot also be its child"
  | staleVersion key expected found =>
      s!"Schema '{key}' was modified concurrently (expected version {expected}, found {found})"
  | unknownVersion key version => s!"Schema '{key}' does not exist at version {version}"
  | repeatedDefinition key => s!"Schema key '{key}' is defined more than once"
  | cyclicDefinitions keys =>
      let list := ", ".intercalate keys
      s!"Schema definitions form a cycle: {list}"
  | schemaNotFound key => s!"Schema not found: {key}"
  | childNotFound key => s!"Child schema not found: {key}"
  | propertyNotFound schemaKey name => s!"Property not found: {schemaKey}.{name}"
  | invalidForm defects => s!"Form configuration is invalid ({defects.length} error(s))"
  | invalidLinker errors =>
      s!"Record linker '{errors.recordDefinitionKey}' has invalid field mappings"
  | emptyPath path => s!"Data requirement violated: path '{path}' is empty"
  | pathPastScalar path name =>
      s!"Data requirement violated: path '{path}' continues past scalar property '{name}'"
  | wrongType path actual expected =>
      s!"Data requirement violated: path '{path}' has type '{actual}', expected '{expected}'"
  | storeFailure call key => s!"Store error: {call.name} failed for '{key}'"
  | unreadable fault => s!"IO error: {fault.message}"
  | brokenText cause line column =>
      s!"JSON error: {cause.message} at line {line} column {column}"
  | invalidDefinition e => s!"JSON error: {e.message}"

/-- The message of the error beneath, for errors that pass one on. -/
def source? : CatalogError → Option String
  | unreadable fault => some fault.message
  | brokenText cause line column => some s!"{cause.message} at line {line} column {column}"
  | invalidDefinition e => some e.message
  | _ => none

/-- The keys or names that an error is about, for those that list them. -/
def names : CatalogError → List String
  | duplicateProperties names => names
  | ownChild key | staleVersion key _ _ | unknownVersion key _ | repeatedDefinition key => [key]
  | parentAsChild child key => [child, key]
  | cyclicDefinitions keys => keys
  | _ => []

end CatalogError

end SchemaCatalog
