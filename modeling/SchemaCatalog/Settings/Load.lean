import SchemaCatalog.Disk.Snapshot
import SchemaCatalog.Settings.Layers
import SchemaCatalog.Toml.Parser

/-!
# Loading and saving settings

The layers of the settings are files at known places, a file that is asked for, and the
environment. The files at known places may be missing; the one that is asked for may
not. Every file that is there has to be well formed. Settings are saved as a file with a
line for each one that is set.
-/

set_option autoImplicit false

namespace SchemaCatalog.Settings

/-- The places where a file of settings is looked for, lowest layer first. -/
def places : List String := ["casework.toml", ".casework.toml", "config/casework.toml"]

/-- The name of the file of settings in the directory of a user. -/
def userFile (userDirectory : String) : String := userDirectory ++ "/casework.toml"

variable {m : Type → Type} [Monad m]

/-- The file that a name stands for: the file of just this name, or the one whose name
goes on with the extension of the format. The only format here is TOML. Others in which
settings can be kept (INI, JSON, JSON5, RON and YAML) are left out: a file with the extension
of one of them is refused as unknown, and not looked for where a name has none. -/
def locate (disk : Disk m) (name : String) : m (Except SettingsError String) := do
  if ← disk.isFile name then
    if ((pathNames name).getLast?.bind extension?) = some "toml" then return .ok name
    else return .error (.unknownFormat name)
  else match barePath? name with
    | none => return .error (.fileNotFound name)
    | some path =>
        if ← disk.isFile (path ++ ".toml") then return .ok (path ++ ".toml")
        else return .error (.fileNotFound name)

/-- The layer of the text of a file. -/
def layerOf (path : String) (text : String) : Except SettingsError Layers.Layer :=
  match Toml.ofText text with
  | .error line => .error (.malformedFile path line)
  | .ok entries => match SettingValue.ofTable? entries with
      | some (.table layer) => .ok layer
      | _ => .error (.malformedFile path 1)

/-- The layer of a file that has to be there. -/
def requiredLayer (disk : Disk m) (name : String) : m (Except SettingsError Layers.Layer) := do
  match ← locate disk name with
  | .error e => return .error e
  | .ok path => match ← disk.text path with
      | .ok text => return layerOf path text
      | .error fault => return .error (.unreadableFile fault)

/-- The layer of a file that may be missing or unreadable, and then is empty. -/
def optionalLayer (disk : Disk m) (name : String) : m (Except SettingsError Layers.Layer) := do
  match ← requiredLayer disk name with
  | .error (.malformedFile path line) => return .error (.malformedFile path line)
  | .error _ => return .ok []
  | .ok layer => return .ok layer

/-- The layers of all files, lowest first. -/
def fileLayers (disk : Disk m) (userDirectory : String) (asked : Option String) :
    m (Except SettingsError (List Layers.Layer)) := do
  let placed ← places.mapM (optionalLayer disk)
  let user ← match ← disk.kind? (userFile userDirectory) with
    | none => pure (.ok [])
    | some _ => optionalLayer disk (userFile userDirectory)
  let last ← match asked with
    | none => pure (.ok [])
    | some name => requiredLayer disk name
  return (placed ++ [user, last]).mapM id

/-- The settings that the files and the environment stand for. -/
def load (disk : Disk m) (userDirectory : String) (asked : Option String)
    (environment : List (String × String)) : m (Except SettingsError Settings) := do
  match ← fileLayers disk userDirectory asked with
  | .error e => return .error e
  | .ok layers =>
      let all := layers ++ [Layers.environment environment]
      return Layers.settings (Layers.merged all)

/-- The disk after settings were saved at a path. -/
def save (s : Settings) (disk : Snapshot) (path : String) : Except FileFault Snapshot :=
  disk.write path s.toToml.toUTF8

end SchemaCatalog.Settings
