/-!
# Commands

What the command line can be asked to do. A `Verb` names a command and says what it
takes; a `Command` is a verb with everything it needs, and an `Invocation` adds the
options that stand in front of the verb.
-/

set_option autoImplicit false

namespace SchemaCatalog

/-- The names of the commands. -/
inductive Verb where
  | form
  | related
  | linker
  | requirements
  | entity
  | config
  | help
deriving DecidableEq, Repr, Inhabited

/-- An argument that a verb takes. The name of a file must not be empty. -/
structure Operand where
  name : String
  isFile : Bool := false
deriving DecidableEq, Repr

namespace Verb

def all : List Verb := [form, related, linker, requirements, entity, config, help]

def name : Verb → String
  | form => "form"
  | related => "related"
  | linker => "linker"
  | requirements => "requirements"
  | entity => "entity"
  | config => "config"
  | help => "help"

def about : Verb → String
  | form => "Validate a form configuration against a schema"
  | related => "Print the related-schema closure of a schema"
  | linker => "Validate a record linker against a transaction schema"
  | requirements => "Validate a data requirement set against a schema"
  | entity => "Build a dynamic entity from a JSON payload and print it back"
  | config => "Print the effective configuration"
  | help => "Print this message or the help of the given subcommand(s)"

/-- The verb with a name. -/
def ofName? (s : String) : Option Verb := all.find? fun v => v.name == s

/-- The arguments that a verb takes, in their order. -/
def operands : Verb → List Operand
  | form => [⟨"SCHEMA", false⟩, ⟨"FORM", true⟩]
  | related => [⟨"SCHEMA", false⟩]
  | linker => [⟨"TRANSACTION", false⟩, ⟨"LINKER", true⟩]
  | requirements => [⟨"SCHEMA", false⟩, ⟨"SET", true⟩]
  | entity => [⟨"SCHEMA", false⟩, ⟨"DATA", true⟩]
  | config | help => []

/-- Whether a verb takes the type of the user. -/
def takesUserType : Verb → Bool
  | requirements => true
  | _ => false

end Verb

/-- What is to be done. -/
inductive Command where
  | form (schemaKey file : String)
  | related (schemaKey : String)
  | linker (transactionKey file : String)
  | requirements (schemaKey file userType : String)
  | entity (schemaKey file : String)
  | config
deriving DecidableEq, Repr, Inhabited

/-- A verb with the values of its operands and the type of the user. -/
def Command.ofOperands? : Verb → List String → String → Option Command
  | .form, [key, file], _ => some (.form key file)
  | .related, [key], _ => some (.related key)
  | .linker, [key, file], _ => some (.linker key file)
  | .requirements, [key, file], userType => some (.requirements key file userType)
  | .entity, [key, file], _ => some (.entity key file)
  | .config, [], _ => some .config
  | _, _, _ => none

/-- The options in front of a verb. -/
structure CommonOptions where
  /-- The directory of the definitions. -/
  schemas : Option String := none
  /-- A file of settings. -/
  config : Option String := none
deriving DecidableEq, Repr, Inhabited

/-- A command and the options for it. -/
structure Invocation where
  options : CommonOptions
  command : Command
deriving DecidableEq, Repr, Inhabited

/-- What the arguments of a command line ask for. -/
inductive Request where
  | run (invocation : Invocation)
  /-- Help on a verb or on all of them. -/
  | help (verb : Option Verb)
  | misuse
deriving DecidableEq, Repr, Inhabited

end SchemaCatalog
