import SchemaCatalog.Catalog.Basic
import SchemaCatalog.Disk.Basic
import SchemaCatalog.Schema.Definition

/-!
# Files of definitions

A directory of definitions holds JSON files, at any depth. A file has one definition or
an array of them; the files are read in the order of their paths, name by name.
-/

set_option autoImplicit false

namespace SchemaCatalog

namespace Definitions

/-- Whether a file of this name holds definitions. -/
def isFileName (name : String) : Bool := extension? name == some "json"

/-- The definition that a value stands for. -/
def ofJson (v : Json) : Except CatalogError Schema :=
  (Decode.ofJson Schema.decode v).mapError .invalidDefinition

/-- The definitions of a text. -/
def ofText (text : String) : Except CatalogError (List Schema) :=
  match Json.ofText? text with
  | .error e =>
      let (line, column) := e.place text
      .error (.brokenText e.cause line column)
  | .ok (.array items) => items.mapM ofJson
  | .ok v => ([·]) <$> ofJson v

/-- The files of definitions among the files below a directory, in their order. -/
def inOrder (path : String) (files : List (List String)) : List (List String) :=
  let named := files.filter fun names =>
    isFileName ((pathNames path ++ names).getLastD "")
  named.mergeSort fun a b => decide (¬ b < a)

variable {m : Type → Type} [Monad m]

/-- The definitions of some files, up to the first file that cannot be read. -/
def readAll (disk : Disk m) : List String → m (Except CatalogError (List Schema))
  | [] => return .ok []
  | path :: rest => do
      match ← disk.text path with
      | .error fault => return .error (.unreadable fault)
      | .ok text => match ofText text with
          | .error e => return .error e
          | .ok schemas =>
              let others ← readAll disk rest
              return others.map (schemas ++ ·)

/-- The definitions below a directory. -/
def read (disk : Disk m) (path : String) : m (Except CatalogError (List Schema)) := do
  let files ← disk.filesBelow path
  readAll disk ((inOrder path files).map (Disk.pathBelow path))

end Definitions

/-- The definitions below a directory saved in a catalog. -/
def Catalog.loadFrom {m : Type → Type} [Monad m] (c : Catalog) (disk : Disk m) (path : String) :
    m (Except CatalogError (List Schema) × Catalog) := do
  match ← Definitions.read disk path with
  | .error e => return (.error e, c)
  | .ok definitions => return c.load definitions

end SchemaCatalog
