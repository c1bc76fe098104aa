import SchemaCatalog.Disk.Basic

/-!
# Snapshots

A disk as a value: files with their bytes, and directories. A directory is there
wherever something lies below it. Paths start at the top of the snapshot; nothing is
above the top. A file is written into a directory that is there, and takes the place of
a file of the same name.
-/

set_option autoImplicit false

namespace SchemaCatalog

/-- What a snapshot holds under the names of a path. -/
inductive SnapshotEntry where
  | file (bytes : ByteArray)
  | directory

structure Snapshot where
  entries : List (List String × SnapshotEntry)

namespace Snapshot

/-- A snapshot of entries with their paths. -/
def ofEntries (entries : List (String × SnapshotEntry)) : Snapshot :=
  ⟨entries.map fun e => ((pathNames e.1).filter fun name => name != "" && name != ".", e.2)⟩

/-- What stands under some names. -/
def entry? (s : Snapshot) (names : List String) : Option SnapshotEntry :=
  if names.isEmpty then some .directory
  else match s.entries.find? fun e => e.1 == names with
    | some e => some e.2
    | none => if s.entries.any fun e => names.isPrefixOf e.1 then some .directory else none

/-- Where a path leads from a place: every name on the way has to be asked of a
directory, a dot and an empty name stay there, and two dots go one up. -/
def walk (s : Snapshot) (place : List String) :
    List String → Except FileFault (List String × SnapshotEntry)
  | [] => match s.entry? place with
      | some e => .ok (place, e)
      | none => .error .notFound
  | name :: rest =>
      match s.entry? place with
      | none => .error .notFound
      | some (.file _) => .error .notADirectory
      | some .directory =>
          if name = "" ∨ name = "." then s.walk place rest
          else if name = ".." then
            if place.isEmpty then .error .notFound else s.walk place.dropLast rest
          else s.walk (place ++ [name]) rest

/-- What stands at a path. -/
def at? (s : Snapshot) (path : String) : Except FileFault (List String × SnapshotEntry) :=
  if path.isEmpty || path.front == '/' then .error .notFound else s.walk [] (pathNames path)

/-- The snapshot with a file under some names, where another one may have been. -/
def put (s : Snapshot) (names : List String) (bytes : ByteArray) : Snapshot :=
  ⟨(s.entries.filter fun e => e.1 != names) ++ [(names, .file bytes)]⟩

/-- The snapshot after a file was written at a path. -/
def write (s : Snapshot) (path : String) (bytes : ByteArray) : Except FileFault Snapshot :=
  if path.isEmpty || path.front == '/' then .error .notFound
  else
    let name := (pathNames path).getLastD ""
    match s.walk [] (pathNames path).dropLast with
    | .error fault => .error fault
    | .ok (_, .file _) => .error .notADirectory
    | .ok (place, .directory) =>
        if name = "" ∨ name = "." ∨ name = ".." then .error .isADirectory
        else match s.entry? (place ++ [name]) with
          | some .directory => .error .isADirectory
          | _ => .ok (s.put (place ++ [name]) bytes)

/-- The names behind others of those files that lie below them. -/
def below (s : Snapshot) (names : List String) : List (List String) :=
  s.entries.filterMap fun e =>
    match e.2 with
    | .file _ => if names.isPrefixOf e.1 then some (e.1.drop names.length) else none
    | .directory => none

/-- The snapshot as a disk. -/
def disk (s : Snapshot) : Disk Id where
  kind? path := match s.at? path with
    | .ok (_, .file _) => some .file
    | .ok (_, .directory) => some .directory
    | .error _ => none
  bytes path := match s.at? path with
    | .ok (_, .file bytes) => .ok bytes
    | .ok (_, .directory) => .error .isADirectory
    | .error fault => .error fault
  filesBelow path := match s.at? path with
    | .ok (names, _) => s.below names
    | .error _ => []

end Snapshot

end SchemaCatalog
