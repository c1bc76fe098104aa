import SchemaCatalog.Json.Basic

/-!
# Forms

A form is a tree of components. A component that takes input is bound to a property by
the last segment of its key; one that takes none only lays out the components below it.
A `FormDefect` is what can be wrong with one component; `FormDefect.report` puts it
into the words in which it is told.
-/

set_option autoImplicit false

namespace SchemaCatalog

/-- A component of a form. -/
structure FormComponent where
  /-- The dotted path of the property that the component is bound to. -/
  key : Option String := none
  /-- Whether the component takes input. -/
  input : Bool := false
  type : Option String := none
  components : List FormComponent := []
  /-- Whether the components below are a template for the items of a list. -/
  list : Bool := false
  hidden : Bool := false
  /-- Kept and not looked at. -/
  expressions : Option Json := none
deriving Repr, Inhabited

/-- A form as it is exchanged: the components at its top. -/
structure FormConfiguration where
  components : List FormComponent
deriving Repr, Inhabited

namespace FormComponent

/-- A component that takes input under a key. -/
def bound (key : String) (components : List FormComponent) : FormComponent :=
  { key := some key, input := true, components := components }

/-- A component that only lays out others. -/
def layoutOnly (components : List FormComponent) : FormComponent :=
  { components := components }

/-- Whether the component is a hidden list. -/
def isHiddenList (c : FormComponent) : Bool := c.hidden && c.list

end FormComponent

/-- The layout component that holds the components at the top of a form. -/
def FormConfiguration.root (f : FormConfiguration) : FormComponent :=
  .layoutOnly f.components

/-- A fault of a form as it is told: the component it is about, and what it is. -/
structure ValidationError where
  controlName : Option String
  errorName : String
deriving DecidableEq, Repr, Inhabited

/-- What is wrong with a form or with one of its components. -/
inductive FormDefect where
  | rootNotFound (schemaKey : String)
  | missingKey
  | duplicateKey (key : String)
  | notInSchema (key schemaKey : String)
  /-- Components stand below one that is bound to no reference. -/
  | notAParent (key : String)
  | targetNotFound (key target : String)
deriving DecidableEq, Repr

namespace FormDefect

/-- The name under which faults of a form as a whole are told. -/
def rootName : String := "ROOT_COMPONENT"

def schemaNotFound (schemaKey : String) : String := s!"Schema with key '{schemaKey}' not found."

/-- The component that a fault is about. -/
def control : FormDefect → Option String
  | rootNotFound _ => some rootName
  | missingKey => none
  | duplicateKey key | notInSchema key _ | notAParent key | targetNotFound key _ => some key

def message : FormDefect → String
  | rootNotFound schemaKey | targetNotFound _ schemaKey => schemaNotFound schemaKey
  | missingKey => "A component is missing its key"
  | duplicateKey _ => "Component key is found more than once in the form configuration"
  | notInSchema _ schemaKey => s!"Component key not found in schema with key '{schemaKey}'"
  | notAParent _ =>
      "component has at least one child component, but is not a parent component in the schema"

def report (d : FormDefect) : ValidationError := ⟨d.control, d.message⟩

end FormDefect

end SchemaCatalog
