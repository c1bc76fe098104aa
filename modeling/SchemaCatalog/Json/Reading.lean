import SchemaCatalog.Json.Basic

/-!
# Readings

A reading is a value as it is met from the front of a text: the fields of an object
come in the order of the text, a key may come twice, and where the text breaks the
rules the reading ends with the fault. A whole value is a reading without faults, so
everything that decodes values is defined on readings and reports whatever comes first.
-/

set_option autoImplicit false

namespace SchemaCatalog

/-- The rule of the JSON grammar that a text breaks. -/
inductive SyntaxCause where
  | endInValue
  | endInString
  | endInList
  | endInObject
  | expectedColon
  | expectedListCommaOrEnd
  | expectedObjectCommaOrEnd
  | expectedWord
  | expectedValue
  | invalidEscape
  | invalidNumber
  | numberOutOfRange
  | controlCharacter
  | keyNotString
  | loneSurrogate
  | unfinishedSurrogatePair
  | trailingComma
  | trailingCharacters
  | tooDeep
deriving DecidableEq, Repr

/-- A broken rule and how many bytes of the text follow the place. -/
structure SyntaxError where
  cause : SyntaxCause
  bytesLeft : Nat
deriving DecidableEq, Repr

namespace SyntaxCause

/-- Whether the text ends too early. -/
def isEnd : SyntaxCause → Bool
  | endInValue | endInString | endInList | endInObject => true
  | _ => false

def message : SyntaxCause → String
  | endInValue => "EOF while parsing a value"
  | endInString => "EOF while parsing a string"
  | endInList => "EOF while parsing a list"
  | endInObject => "EOF while parsing an object"
  | expectedColon => "expected `:`"
  | expectedListCommaOrEnd => "expected `,` or `]`"
  | expectedObjectCommaOrEnd => "expected `,` or `\x7d`"
  | expectedWord => "expected ident"
  | expectedValue => "expected value"
  | invalidEscape => "invalid escape"
  | invalidNumber => "invalid number"
  | numberOutOfRange => "number out of range"
  | controlCharacter => "control character (\\u0000-\\u001F) found while parsing a string"
  | keyNotString => "key must be a string"
  | loneSurrogate => "lone leading surrogate in hex escape"
  | unfinishedSurrogatePair => "unexpected end of hex escape"
  | trailingComma => "trailing comma"
  | trailingCharacters => "trailing characters"
  | tooDeep => "recursion limit exceeded"

end SyntaxCause

namespace SyntaxError

/-- The bytes of the text up to the place of the error. -/
def offset (text : String) (e : SyntaxError) : Nat := text.utf8ByteSize - e.bytesLeft

/-- The line and the column of the byte at an offset: lines count from one and columns
the bytes since the last line end. -/
def lineAndColumn (line column : Nat) : Nat → List Char → Nat × Nat
  | _, [] => (line, column)
  | bytes, c :: cs =>
      if bytes < c.utf8Size then (line, column + bytes)
      else if c = '\n' then lineAndColumn (line + 1) 0 (bytes - c.utf8Size) cs
      else lineAndColumn line (column + c.utf8Size) (bytes - c.utf8Size) cs

/-- The line and the column of an error in a text. -/
def place (text : String) (e : SyntaxError) : Nat × Nat :=
  lineAndColumn 1 0 (e.offset text) text.toList

/-- The rule that is broken, with the place in the text. -/
def describe (text : String) (e : SyntaxError) : String :=
  let (line, column) := e.place text
  s!"{e.cause.message} at line {line} column {column}"

end SyntaxError

/-- A value as it is met in a text. -/
inductive Reading where
  | null
  | bool (value : Bool)
  | number (value : JsonNumber)
  | string (value : String)
  | array (items : List Reading)
  | object (fields : List (String × Reading))
  | fault (error : SyntaxError)
  /-- The value of a field in which reading stopped at a fault, and the fault that is met
  when the value is skipped instead, if any: skipping asks for less. -/
  | unfinished (read : Reading) (skipped : Option SyntaxError)
deriving Repr, Inhabited

namespace Reading

mutual

/-- A whole value as a reading. -/
def ofJson : Json → Reading
  | .null => .null
  | .bool b => .bool b
  | .number n => .number n
  | .string s => .string s
  | .array items => .array (ofItems items)
  | .object fields => .object (ofFields fields)

/-- The readings of the items of an array. -/
def ofItems : List Json → List Reading
  | [] => []
  | v :: vs => ofJson v :: ofItems vs

/-- The readings of the fields of an object. -/
def ofFields : List (String × Json) → List (String × Reading)
  | [] => []
  | (k, v) :: rest => (k, ofJson v) :: ofFields rest

end

mutual

/-- The value that was read, with the fields of every object in key order and the last
value of a repeated key; the first fault if there is one. -/
def value? : Reading → Except SyntaxError Json
  | .null => pure .null
  | .bool b => pure (.bool b)
  | .number n => pure (.number n)
  | .string s => pure (.string s)
  | .array items => .array <$> items? items
  | .object fields => (.object ∘ Keyed.ofList) <$> fields? fields
  | .fault e => throw e
  | .unfinished r _ => value? r

/-- The items that were read. -/
def items? : List Reading → Except SyntaxError (List Json)
  | [] => pure []
  | r :: rs => do
      let v ← value? r
      let vs ← items? rs
      pure (v :: vs)

/-- The fields that were read, in their order. -/
def fields? : List (String × Reading) → Except SyntaxError (List (String × Json))
  | [] => pure []
  | (k, r) :: rest => do
      let v ← value? r
      let vs ← fields? rest
      pure ((k, v) :: vs)

end

/-- The reading of a field by itself, finished or not. -/
def attempted : Reading → Reading
  | .unfinished r _ => r
  | r => r

/-- The fault that is met when the value of a field is skipped. -/
def skipFault? : Reading → Option SyntaxError
  | .unfinished _ skipped => skipped
  | .fault e => some e
  | _ => none

end Reading

end SchemaCatalog
