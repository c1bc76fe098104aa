import SchemaCatalog.Catalog.Definitions
import SchemaCatalog.Catalog.Related
import SchemaCatalog.Command.Arguments
import SchemaCatalog.Command.Help
import SchemaCatalog.Entity.Build
import SchemaCatalog.Linker.Check
import SchemaCatalog.Linker.Codec
import SchemaCatalog.Requirement.Codec
import SchemaCatalog.Settings.Load

/-!
# Running commands

A command first gets its settings, then opens the catalog that they or an option name,
then reads its file, and only then does its work. What it prints and the status it ends
with are an `Outcome`; the status is zero only when everything is in order.
-/

set_option autoImplicit false

namespace SchemaCatalog

/-- What a run leaves: its output, its error output, and its status. -/
structure Outcome where
  output : String
  errors : String
  status : Nat
deriving DecidableEq, Repr, Inhabited

/-- Why a command gives no answer. -/
inductive CommandError where
  | settings (error : SettingsError)
  | noDirectory
  | catalog (error : CatalogError)
  | unreadable (file : String) (fault : FileFault)
  | undecodable (file text : String) (error : DecodeError)
deriving Repr

namespace CommandError

/-- The message of an error, followed by that of the error beneath it. -/
def message : CommandError → String
  | settings e => e.message
  | noDirectory => "no schema directory given (use --schemas or registry.schema_dir)"
  | catalog e => ": ".intercalate (e.message :: e.source?.toList)
  | unreadable file fault => s!"reading {file}: {fault.message}"
  | undecodable file text e => s!"parsing {file}: {e.describe text}"

end CommandError

namespace Outcome

/-- The outcome of a run that only prints. -/
def printed (text : String) : Outcome := ⟨text ++ "\n", "", 0⟩

/-- The outcome of a check that found something. -/
def rejected (findings : Json) : Outcome := ⟨findings.pretty ++ "\n", "", 1⟩

def failed (e : CommandError) : Outcome := ⟨"", s!"Error: {e.message}\n", 1⟩

/-- The outcome of a command line that is used wrongly. -/
def misused : Outcome := ⟨"", Help.usage none ++ "\nFor more information, try '--help'.\n", 2⟩

end Outcome

namespace Command

variable {m : Type → Type} [Monad m]

/-- The catalog of the definitions in a directory, which an option or the settings name. -/
def openCatalog (disk : Disk m) (directory : Option String) (settings : Settings) :
    ExceptT CommandError m Catalog := do
  match directory <|> settings.registry.schemaDir with
  | none => throw .noDirectory
  | some path =>
      match KeyRule.ofText? settings.registry.keyPattern with
      | .error e => throw (.catalog e)
      | .ok rule =>
          let (saved, catalog) ← ExceptT.lift ((Catalog.empty rule .none).loadFrom disk path)
          match saved with
          | .error e => throw (.catalog e)
          | .ok _ => return catalog

/-- What a file decodes to. -/
def readFile {α : Type} (disk : Disk m) (decode : Reading → Except DecodeError α)
    (file : String) : ExceptT CommandError m α := do
  match ← ExceptT.lift (disk.text file) with
  | .error fault => throw (.unreadable file fault)
  | .ok text => match Decode.ofText decode text with
      | .error e => throw (.undecodable file text e)
      | .ok a => return a

/-- The result of an operation on the catalog. -/
def lift {α : Type} (r : Except CatalogError α) : ExceptT CommandError m α :=
  match r with
  | .ok a => pure a
  | .error e => throw (.catalog e)

/-- The output of a command; `directory` is the directory that an option names. -/
def perform (disk : Disk m) (directory : Option String) (settings : Settings) :
    Command → ExceptT CommandError m Outcome
  | .config => return .printed settings.toToml
  | .form schemaKey file => do
      let catalog ← openCatalog disk directory settings
      let form ← readFile disk FormConfiguration.decode file
      let defects ← lift <| form.root.validate catalog.lookup
        settings.validation.suppressHiddenListErrors schemaKey
      if defects.isEmpty then return .printed s!"✅ Form configuration is valid for '{schemaKey}'"
      else return .rejected (.array (defects.map fun d => d.report.encode))
  | .related schemaKey => do
      let catalog ← openCatalog disk directory settings
      let groups ← lift (catalog.related schemaKey)
      return .printed (Json.object (groups.map fun g =>
        (g.1, .array (g.2.map Schema.encode)))).pretty
  | .linker transactionKey file => do
      let catalog ← openCatalog disk directory settings
      let linker ← readFile disk RecordLinker.decode file
      let errors ← lift (linker.check catalog.lookup transactionKey)
      if errors.isEmpty then
        return .printed s!"✅ Record linker '{linker.recordDefinitionKey}' is valid"
      else return .rejected errors.encode
  | .requirements schemaKey file userType => do
      let catalog ← openCatalog disk directory settings
      let set ← readFile disk DataRequirementSet.decode file
      lift (set.validate catalog.lookup schemaKey userType)
      return .printed s!"✅ All data requirements hold for '{schemaKey}'"
  | .entity schemaKey file => do
      let catalog ← openCatalog disk directory settings
      let payload ← readFile disk (Decode.mapOf Decode.json) file
      let entity ← lift (Entity.buildFor catalog.lookup schemaKey payload)
      return .printed (Json.object entity.toFields).pretty

end Command

/-- The surroundings of a run. -/
structure Surroundings (m : Type → Type) where
  disk : Disk m
  /-- The directory in which the user keeps settings. -/
  userDirectory : String
  /-- The variables of the environment. -/
  environment : List (String × String)

variable {m : Type → Type} [Monad m]

/-- The outcome of an invocation. -/
def Invocation.run (around : Surroundings m) (i : Invocation) : m Outcome := do
  match ← Settings.load around.disk around.userDirectory i.options.config around.environment with
  | .error e => return .failed (.settings e)
  | .ok settings =>
      match ← (i.command.perform around.disk i.options.schemas settings).run with
      | .error e => return .failed e
      | .ok outcome => return outcome

/-- The outcome of a command line. -/
def Request.answer (around : Surroundings m) : Request → m Outcome
  | .run invocation => invocation.run around
  | .help verb => return ⟨Help.text verb, "", 0⟩
  | .misuse => return .misused

end SchemaCatalog
