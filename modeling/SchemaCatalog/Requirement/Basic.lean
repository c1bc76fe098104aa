import SchemaCatalog.Catalog.Basic
import SchemaCatalog.Text.Basic

/-!
# Data requirements

A requirement says that a path from a schema leads to a value of a type. The path is
walked through the declared properties alone: a reference leads on to the schema that
it refers to, a list of scalars ends the walk whatever follows, and a scalar has to be
the last segment. A reference at the end has the key of its schema for a type.
-/

set_option autoImplicit false

namespace SchemaCatalog

/-- A path, the type expected at its end, and the user types that it applies to. -/
structure DataRequirement where
  path : String
  type : String
  /-- An empty list stands for all user types. -/
  userTypes : List String
deriving DecidableEq, Repr, Inhabited

/-- The requirements of a set of transactions. -/
structure DataRequirementSet where
  requirements : List DataRequirement
deriving DecidableEq, Repr, Inhabited

namespace DataRequirement

def appliesTo (r : DataRequirement) (userType : String) : Bool :=
  r.userTypes.isEmpty || r.userTypes.contains userType

/-- The name of the type that a path from a schema leads to; `path` is the whole path,
for messages. It has a segment, even if that is an empty one. -/
def typeAt (look : Lookup) (path : String) (schema : Schema) :
    List String → Except CatalogError String
  | [] => .error (.emptyPath path)
  | segment :: rest =>
      match schema.declared? segment with
      | none => .error (.propertyNotFound schema.key segment)
      | some property =>
          match property.kind with
          | .scalar t =>
              if rest.isEmpty then .ok t.name else .error (.pathPastScalar path segment)
          | .listOfScalar t => .ok t.name
          | .reference target | .listOfReference target => do
              let related ← look.require target
              if rest.isEmpty then pure target else typeAt look path related rest

/-- A requirement holds from the schema with a key on. -/
def validate (look : Lookup) (rootKey : String) (r : DataRequirement) :
    Except CatalogError Unit := do
  let root ← look.require rootKey
  let actual ← typeAt look r.path root (Text.segments r.path)
  if Text.sameLetters actual r.type then pure () else throw (.wrongType r.path actual r.type)

end DataRequirement

namespace DataRequirementSet

/-- The requirements that apply to a user type. -/
def applicable (set : DataRequirementSet) (userType : String) : List DataRequirement :=
  set.requirements.filter fun r => r.appliesTo userType

/-- Each requirement that applies holds; otherwise the first that does not is the error. -/
def validate (look : Lookup) (rootKey userType : String) (set : DataRequirementSet) :
    Except CatalogError Unit :=
  (set.applicable userType).forM fun r => r.validate look rootKey

end DataRequirementSet

end SchemaCatalog
