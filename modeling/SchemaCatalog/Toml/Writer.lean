/-!
# Writing TOML strings

A string is written in the first form that can hold it: in double quotes, in single
quotes, in three double quotes, in three single quotes, each without escapes except for
the tab, and otherwise in double quotes with escapes, three of them if there is a line
end in it.
-/

set_option autoImplicit false

namespace SchemaCatalog.Toml

/-- Whether a character needs an escape wherever it stands; tabs and line ends do not. -/
def isControl (c : Char) : Bool := (c.toNat < 0x20 && c != '\t' && c != '\n') || c.toNat == 0x7F

/-- The length of the longest run of a character; `run` is that of the run so far. -/
def longestRun (quote : Char) (run : Nat) : List Char → Nat
  | [] => run
  | c :: cs => if c = quote then longestRun quote (run + 1) cs else max run (longestRun quote 0 cs)

/-- A character where escapes are allowed, a line end and a quote apart. -/
def escapedChar (c : Char) : List Char :=
  if c = '\t' then ['\\', 't']
  else if c = '\x08' then ['\\', 'b']
  else if c = '\x0c' then ['\\', 'f']
  else if c = '\x0d' then ['\\', 'r']
  else if c = '\\' then ['\\', '\\']
  else if isControl c then
    ['\\', 'u', '0', '0', (Nat.digitChar (c.toNat / 16)).toUpper,
      (Nat.digitChar (c.toNat % 16)).toUpper]
  else [c]

/-- The text between double quotes on one line. -/
def escapedLine (cs : List Char) : List Char :=
  cs.flatMap fun c =>
    if c = '"' then ['\\', '"'] else if c = '\n' then ['\\', 'n'] else escapedChar c

/-- The text between three double quotes; of three quotes in a row the last is escaped, and
`run` counts those before. -/
def escapedLines (run : Nat) : List Char → List Char
  | [] => []
  | c :: cs =>
      if c = '"' then
        if run = 2 then '\\' :: '"' :: escapedLines 0 cs else '"' :: escapedLines (run + 1) cs
      else if c = '\n' then '\n' :: escapedLines 0 cs
      else escapedChar c ++ escapedLines 0 cs

/-- A text between some quotes; over several lines it starts on a line of its own. -/
def enclosed (quotes : String) (body : List Char) : String :=
  let opening := if quotes.length = 3 && body.contains '\n' then "\n" else ""
  quotes ++ opening ++ String.ofList body ++ quotes

/-- A string as it is written. -/
def stringText (s : String) : String :=
  let cs := s.toList
  let control := cs.any isControl
  let newline := cs.contains '\n'
  let backslash := cs.contains '\\'
  let double := longestRun '"' 0 cs
  let single := longestRun '\x27' 0 cs
  if !control && !backslash && double == 0 && !newline then enclosed "\"" (escapedLine cs)
  else if !control && single == 0 && !newline then enclosed "'" cs
  else if !control && !backslash && double < 3 then enclosed "\"\"\"" (escapedLines 0 cs)
  else if !control && single < 3 then enclosed "'''" cs
  else if newline then enclosed "\"\"\"" (escapedLines 0 cs)
  else enclosed "\"" (escapedLine cs)

end SchemaCatalog.Toml
