import SchemaCatalog.Json.Basic
import SchemaCatalog.Number.Render

/-!
# Writing JSON texts

The compact form has no white space; the spread form puts every item and every field
on a line of its own, two spaces deeper than its container, and leaves empty
containers on one line. In strings only quotes, backslashes and control characters
are escaped.
-/

set_option autoImplicit false

namespace SchemaCatalog.Json

/-- A character as it stands in a string literal. -/
def escapeChar (c : Char) : List Char :=
  if c = '"' then ['\\', '"']
  else if c = '\\' then ['\\', '\\']
  else if c = '\x08' then ['\\', 'b']
  else if c = '\x0c' then ['\\', 'f']
  else if c = '\n' then ['\\', 'n']
  else if c = '\x0d' then ['\\', 'r']
  else if c = '\t' then ['\\', 't']
  else if c.toNat < 0x20 then
    ['\\', 'u', '0', '0', Nat.digitChar (c.toNat / 16), Nat.digitChar (c.toNat % 16)]
  else [c]

/-- A string literal. -/
def stringLiteral (s : String) : String :=
  String.ofList ('"' :: s.toList.flatMap escapeChar ++ ['"'])

/-- The written form of a number. -/
def numberLiteral : JsonNumber → String
  | .int i => toString i
  | .real x => DecimalFormat.exponential.write x

mutual

/-- The compact form of a value. -/
def compact : Json → String
  | .null => "null"
  | .bool b => if b then "true" else "false"
  | .number n => numberLiteral n
  | .string s => stringLiteral s
  | .array items => "[" ++ ",".intercalate (compactItems items) ++ "]"
  | .object fields => "\x7b" ++ ",".intercalate (compactFields fields) ++ "\x7d"

/-- The compact forms of some items. -/
def compactItems : List Json → List String
  | [] => []
  | v :: vs => compact v :: compactItems vs

/-- The compact forms of some fields. -/
def compactFields : List (String × Json) → List String
  | [] => []
  | (k, v) :: rest => (stringLiteral k ++ ":" ++ compact v) :: compactFields rest

end

/-- A new line with the indentation of a depth. -/
def newLine (depth : Nat) : String := "\n" ++ String.ofList (List.replicate (2 * depth) ' ')

/-- Lines of a container between its two brackets. -/
def spreadLines (opening closing : String) (depth : Nat) (lines : List String) : String :=
  if lines.isEmpty then opening ++ closing
  else opening ++ newLine (depth + 1) ++ ("," ++ newLine (depth + 1)).intercalate lines
    ++ newLine depth ++ closing

mutual

/-- The spread form of a value at a depth. -/
def spread (depth : Nat) : Json → String
  | .array items => spreadLines "[" "]" depth (spreadItems (depth + 1) items)
  | .object fields => spreadLines "\x7b" "\x7d" depth (spreadFields (depth + 1) fields)
  | v => compact v

/-- The spread forms of some items. -/
def spreadItems (depth : Nat) : List Json → List String
  | [] => []
  | v :: vs => spread depth v :: spreadItems depth vs

/-- The spread forms of some fields. -/
def spreadFields (depth : Nat) : List (String × Json) → List String
  | [] => []
  | (k, v) :: rest => (stringLiteral k ++ ": " ++ spread depth v) :: spreadFields depth rest

end

/-- The spread form of a value. -/
def pretty (v : Json) : String := spread 0 v

end SchemaCatalog.Json
