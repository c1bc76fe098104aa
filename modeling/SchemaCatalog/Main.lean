import SchemaCatalog.Command.Run

/-!
# The command line

The program on a real disk: it reads files, looks at the environment, prints, and
decides nothing.
-/

set_option autoImplicit false

namespace SchemaCatalog

/-- The fault that an error of the system stands for. -/
def FileFault.ofSystem : IO.Error → FileFault
  | .noFileOrDirectory .. | .noSuchThing .. => .notFound
  | .inappropriateType .. => .notADirectory
  | e => .other (toString e)

/-- What stands at a path of the real disk. -/
def realKind? (path : String) : IO (Option EntryKind) := do
  try
    let place ← IO.FS.realPath path
    if ← place.isDir then return some .directory
    else if ← place.pathExists then return some .file
    else return none
  catch _ => return none

/-- The bytes of a file of the real disk. -/
def realBytes (path : String) : IO (Except FileFault ByteArray) := do
  if (← realKind? path) == some .directory then return .error .isADirectory
  try return .ok (← IO.FS.readBinFile path)
  catch e => return .error (.ofSystem e)

/-- The names on the way to each file below a directory of the real disk. -/
partial def realFiles (path : String) : IO (List (List String)) := do
  match ← realKind? path with
  | none => return []
  | some .file => return [[]]
  | some .directory =>
      try
        let place ← IO.FS.realPath path
        let mut files := []
        for entry in ← place.readDir do
          let inner ← realFiles (Disk.pathBelow path [entry.fileName])
          files := files ++ inner.map (entry.fileName :: ·)
        return files
      catch _ => return []

/-- The real disk. -/
def realDisk : Disk IO where
  kind? := realKind?
  bytes := realBytes
  filesBelow := realFiles

/-- The directory in which the user of the program keeps its settings. -/
def realUserDirectory : IO String := do
  match ← IO.getEnv "XDG_CONFIG_HOME" with
  | some directory =>
      if directory.startsWith "/" then return directory ++ "/schemas" else fromHome
  | none => fromHome
where
  fromHome : IO String := do
    return (← IO.getEnv "HOME").getD "" ++ "/.config/schemas"

/-- The variables in the block in which the system keeps an environment: each with an
equals sign behind its name and a zero character behind its value. -/
def variablesOf (block : String) : List (String × String) :=
  (block.toList.splitOn '\x00').filterMap fun entry =>
    let name := entry.takeWhile (· != '=')
    match entry.drop name.length with
    | [] => none
    | _ :: value => some (String.ofList name, String.ofList value)

/-- The variables of the environment. -/
def realVariables : IO (List (String × String)) := do
  match ← realDisk.text "/proc/self/environ" with
  | .ok block => return variablesOf block
  | .error _ => return []

end SchemaCatalog

open SchemaCatalog in
def main (args : List String) : IO UInt32 := do
  let around : Surroundings IO := ⟨realDisk, ← realUserDirectory, ← realVariables⟩
  let outcome ← (Request.ofCommandLine args).answer around
  (← IO.getStdout).putStr outcome.output
  (← IO.getStderr).putStr outcome.errors
  return outcome.status.toUInt32
