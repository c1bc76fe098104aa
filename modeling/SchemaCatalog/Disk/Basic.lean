/-!
# Disks

The catalog asks a disk for little: what stands at a path, the bytes of a file, and the
files below a directory. A `Disk` answers these questions in a monad, so that the same
definitions run on a real disk and on a `Snapshot` that is a plain value.
-/

set_option autoImplicit false

namespace SchemaCatalog

/-! ## Texts in bytes

A file holds bytes, and a text is kept in UTF-8. -/

/-- The text that bytes stand for, if every byte belongs to it. -/
def Utf8.text? (bytes : ByteArray) : Option String := String.fromUTF8? bytes

/-- Every text is given back from its own bytes. -/
theorem Utf8.text?_toUTF8 (s : String) : text? s.toUTF8 = some s := by
  change (if h : s.toByteArray.IsValidUTF8 then some (String.fromUTF8 s.toByteArray h)
    else none) = some s
  rw [dif_pos s.isValidUTF8]
  rfl

/-! ## Questions to a disk -/

/-- Why a file cannot be read. -/
inductive FileFault where
  | notFound
  | notADirectory
  | isADirectory
  | notText
  | other (text : String)
deriving DecidableEq, Repr

def FileFault.message : FileFault → String
  | notFound => "No such file or directory (os error 2)"
  | notADirectory => "Not a directory (os error 20)"
  | isADirectory => "Is a directory (os error 21)"
  | notText => "stream did not contain valid UTF-8"
  | other text => text

/-- What can stand at a path. -/
inductive EntryKind where
  | file
  | directory
deriving DecidableEq, Repr

/-- The questions that a disk answers. -/
structure Disk (m : Type → Type) where
  kind? : String → m (Option EntryKind)
  bytes : String → m (Except FileFault ByteArray)
  /-- The files below a directory, each as the names on the way to it; none if there is no
  such directory. A file is below itself, with no names. -/
  filesBelow : String → m (List (List String))

namespace Disk

variable {m : Type → Type} [Monad m]

def isFile (disk : Disk m) (path : String) : m Bool := do
  return (← disk.kind? path) == some .file

/-- The text of a file. -/
def text (disk : Disk m) (path : String) : m (Except FileFault String) := do
  match ← disk.bytes path with
  | .error fault => return .error fault
  | .ok bytes => match Utf8.text? bytes with
      | some s => return .ok s
      | none => return .error .notText

/-- A path lengthened by some names. -/
def pathBelow (path : String) (names : List String) : String := "/".intercalate (path :: names)

end Disk

/-! ## Names of files -/

/-- The names of a path, with empty ones where slashes meet. -/
def pathNames (path : String) : List String :=
  (path.toList.splitOn '/').map String.ofList

/-- The part of a name behind its last dot, if anything stands before the dot. -/
def extension? (name : String) : Option String :=
  match name.toList.splitOn '.' |>.reverse with
  | last :: before :: more =>
      if before.isEmpty && more.isEmpty then none else some (String.ofList last)
  | _ => none

/-- A path without the slashes and single dots at its end. -/
def barePath? (path : String) : Option String :=
  let names := (pathNames path).reverse.dropWhile fun name => name = "" || name = "."
  match names with
  | [] => none
  | ".." :: _ => none
  | names => some ("/".intercalate names.reverse)

end SchemaCatalog
