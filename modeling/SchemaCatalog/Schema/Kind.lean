/-!
# Kinds of properties

A property holds a scalar, a list of scalars, a nested entity of another schema or a
list of those.
-/

set_option autoImplicit false

namespace SchemaCatalog

/-- The scalar types. -/
inductive ScalarType where
  | string
  | number
  | boolean
  | date
  | time
  | document
deriving DecidableEq, Repr, Inhabited

namespace ScalarType

/-- All scalar types, in the order in which messages list them. -/
def all : List ScalarType := [string, number, boolean, date, time, document]

/-- The name of a scalar type in definitions. -/
def name : ScalarType → String
  | string => "String"
  | number => "Number"
  | boolean => "Boolean"
  | date => "Date"
  | time => "Time"
  | document => "Document"

end ScalarType

/-- Why an attribute of a definition has no kind. -/
inductive DefinitionError where
  | noEntitySchema (property : String)
  | unknownType (property typeName : String)
  | noContentType (property : String)
deriving DecidableEq, Repr

namespace DefinitionError

def message : DefinitionError → String
  | noEntitySchema a => s!"Attribute '{a}' references an entity but has no entitySchema"
  | unknownType a t => s!"Attribute '{a}' has unknown type '{t}'"
  | noContentType a => s!"List attribute '{a}' has no contentType"

end DefinitionError

/-- What a property holds. -/
inductive Kind where
  | scalar (type : ScalarType)
  | listOfScalar (type : ScalarType)
  /-- A nested entity of the schema with this key. -/
  | reference (target : String)
  /-- A list of nested entities of the schema with this key. -/
  | listOfReference (target : String)
deriving DecidableEq, Repr, Inhabited

namespace Kind

/-- The type name of a nested entity. -/
def entityType : String := "Entity"

/-- The type name of a list. -/
def listType : String := "List"

/-- The key of the schema that a kind refers to. -/
def target? : Kind → Option String
  | .reference key | .listOfReference key => some key
  | .scalar _ | .listOfScalar _ => none

def isReference (k : Kind) : Bool := k.target?.isSome

def isList : Kind → Bool
  | .listOfScalar _ | .listOfReference _ => true
  | .scalar _ | .reference _ => false

/-- The kind as it is shown to people. -/
def display : Kind → String
  | .scalar t => t.name
  | .listOfScalar t => s!"List<{t.name}>"
  | .reference key => s!"Entity<{key}>"
  | .listOfReference key => s!"List<Entity<{key}>>"

end Kind

end SchemaCatalog
