import SchemaCatalog.Json.Reader
import SchemaCatalog.Number.Render
import SchemaCatalog.Schema.Kind
import SchemaCatalog.Text.Quoted

/-!
# Decoding records

A record is decoded from an object, field by field, or from an array whose items stand
for the declared fields in their order. Every field is decoded on its own; an `Attempt`
that fails carries the place where it failed, and of several failures the one that is
met first in the reading is reported. Fields that are missing come after those that
are there, in the order of declaration.
-/

set_option autoImplicit false

namespace SchemaCatalog

/-- What a decoder came upon. -/
inductive Found where
  | null
  | boolean (value : Bool)
  | integer (value : Int)
  | float (value : Binary64)
  | string (value : String)
  | sequence
  | map
deriving DecidableEq, Repr

/-- Why a reading does not decode. -/
inductive DecodeError where
  | missingField (name : String)
  | invalidType (found : Found) (expected : String)
  | invalidValue (found : Found) (expected : String)
  /-- A record with so many fields is written as an array that ends before one that is
  needed. -/
  | invalidLength (length : Nat) (record : String) (fieldCount : Nat)
  | tooLong (length : Nat)
  | duplicateField (name : String)
  | unknownVariant (name : String) (known : List String)
  | definition (error : DefinitionError)
  | broken (error : SyntaxError)
deriving DecidableEq, Repr

namespace Found

def describe : Found → String
  | null => "null"
  | boolean b => s!"boolean `{b}`"
  | integer i => s!"integer `{i}`"
  | float x => s!"floating point `{DecimalFormat.exponential.write x}`"
  | string s => s!"string {Text.quoted s}"
  | sequence => "sequence"
  | map => "map"

end Found

namespace DecodeError

/-- A name between grave accents. -/
def ticked (name : String) : String := "`" ++ name ++ "`"

def message : DecodeError → String
  | missingField name => s!"missing field `{name}`"
  | invalidType found expected => s!"invalid type: {found.describe}, expected {expected}"
  | invalidValue found expected => s!"invalid value: {found.describe}, expected {expected}"
  | invalidLength length record count =>
      let elements := if count = 1 then "element" else "elements"
      s!"invalid length {length}, expected struct {record} with {count} {elements}"
  | tooLong length => s!"invalid length {length}, expected fewer elements in array"
  | duplicateField name => s!"duplicate field `{name}`"
  | unknownVariant name known =>
      let variants := ", ".intercalate (known.map ticked)
      s!"unknown variant `{name}`, expected one of {variants}"
  | definition e => e.message
  | broken e => e.cause.message

/-- The error with its place in the text that was decoded. A broken rule has a place of its
own; every other error is told at the end of the text, which has been read by then. -/
def describe (text : String) : DecodeError → String
  | broken e => e.describe text
  | e =>
      let (line, column) := SyntaxError.lineAndColumn 1 0 text.utf8ByteSize text.toList
      s!"{e.message} at line {line} column {column}"

end DecodeError

namespace Decode

/-! ## Single values -/

/-- What a reading is, for a message. -/
def found : Reading → Found
  | .null => .null
  | .bool b => .boolean b
  | .number (.int i) => .integer i
  | .number (.real x) => .float x
  | .string s => .string s
  | .array _ => .sequence
  | .object _ => .map
  | .fault _ => .null
  | .unfinished r _ => found r

/-- The error of a reading that is of another type than expected. -/
def mismatch (expected : String) : Reading → DecodeError
  | .fault e => .broken e
  | r => .invalidType (found r) expected

def textAs (expected : String) : Reading → Except DecodeError String
  | .string s => pure s
  | r => throw (mismatch expected r)

def text : Reading → Except DecodeError String := textAs "a string"

def bool : Reading → Except DecodeError Bool
  | .bool b => pure b
  | r => throw (mismatch "a boolean" r)

/-- A natural number of 64 bits. -/
def nat : Reading → Except DecodeError Nat
  | .number (.int i) =>
      if i < 0 then throw (.invalidValue (.integer i) "u64") else pure i.toNat
  | r => throw (mismatch "u64" r)

/-- Any value. -/
def json (r : Reading) : Except DecodeError Json := r.value?.mapError .broken

/-- None for null, and otherwise what the decoder gives. -/
def optional {α : Type} (read : Reading → Except DecodeError α) :
    Reading → Except DecodeError (Option α)
  | .null => pure none
  | r => some <$> read r

/-- The items of an array, up to the first that does not decode. -/
def list {α : Type} (read : Reading → Except DecodeError α) :
    Reading → Except DecodeError (List α)
  | .array items => items.mapM read
  | r => throw (mismatch "a sequence" r)

/-- A map from texts, in key order; of a repeated key the last value stays. -/
def mapOf {α : Type} (read : Reading → Except DecodeError α) :
    Reading → Except DecodeError (List (String × α))
  | .object fields => Keyed.ofList <$> fields.mapM fun e => (e.1, ·) <$> read e.2.attempted
  | r => throw (mismatch "a map" r)

/-! ## Attempts -/

/-- A decoded part, or the place in the reading and the error found there. -/
def Attempt (α : Type) : Type := Except (Nat × DecodeError) α

namespace Attempt

/-- Two attempts together; of two failures the earlier one stays. -/
def both {α β : Type} : Attempt α → Attempt β → Attempt (α × β)
  | .ok a, .ok b => Except.ok (a, b)
  | .ok _, .error f => Except.error f
  | .error e, .ok _ => Except.error e
  | .error e, .error f => Except.error (if e.1 ≤ f.1 then e else f)

def map {α β : Type} (f : α → β) : Attempt α → Attempt β
  | .ok a => Except.ok (f a)
  | .error e => Except.error e

instance : Applicative Attempt where
  pure a := Except.ok a
  map := map
  seq f x := map (fun p => p.1 p.2) (both f (x ()))

end Attempt

/-! ## Records -/

/-- The name of a record type, its fields in the order of declaration, and other names
under which a field may be written. -/
structure Layout where
  record : String
  fields : List String
  aliases : List (String × String) := []
deriving Repr

/-- The fields of a record as they were met. -/
structure Entries where
  layout : Layout
  met : List (String × Reading)
  /-- Items of an array beyond the declared fields. -/
  extra : List Reading
  positional : Bool
deriving Repr

namespace Layout

def ofFields (l : Layout) (fields : List (String × Reading)) : Entries := ⟨l, fields, [], false⟩

def ofItems (l : Layout) (items : List Reading) : Entries :=
  ⟨l, l.fields.zip items, items.drop l.fields.length, true⟩

/-- The declared field that a name stands for. -/
def canonical (l : Layout) (name : String) : String := (Keyed.get? l.aliases name).getD name

/-- The error of a reading that is neither an object nor an array. -/
def mismatch (l : Layout) (r : Reading) : DecodeError := Decode.mismatch s!"struct {l.record}" r

/-- The fields of a record in a reading. -/
def entries (l : Layout) : Reading → Except DecodeError Entries
  | .object fields => pure (l.ofFields fields)
  | .array items => pure (l.ofItems items)
  | r => throw (l.mismatch r)

end Layout

namespace Entries

/-- The places and readings of a field, counted from a place. -/
def occurrences (l : Layout) (name : String) (place : Nat) :
    List (String × Reading) → List (Nat × Reading)
  | [] => []
  | (k, r) :: rest =>
      if l.canonical k = name then (place, r) :: occurrences l name (place + 1) rest
      else occurrences l name (place + 1) rest

/-- The error of a field that is needed and missing. -/
def missing (e : Entries) (name : String) : Nat × DecodeError :=
  let index := e.layout.fields.idxOf name
  (e.met.length + index,
    if e.positional then .invalidLength index e.layout.record e.layout.fields.length
    else .missingField name)

/-- A field that takes a default when it is missing; without one it is needed. -/
def field {α : Type} (e : Entries) (name : String) (read : Reading → Except DecodeError α)
    (default? : Option α) : Attempt α :=
  match occurrences e.layout name 0 e.met with
  | [] => match default? with
      | some a => Except.ok a
      | none => Except.error (e.missing name)
  | (place, r) :: more =>
      match read r.attempted with
      | .error err => Except.error (place, err)
      | .ok a => match more with
          | [] => Except.ok a
          | (again, _) :: _ => Except.error (again, .duplicateField name)

/-- The faults in fields that the record does not have, counted from a place. -/
def strayFault (l : Layout) (place : Nat) : List (String × Reading) → Attempt Unit
  | [] => Except.ok ()
  | (k, r) :: rest =>
      if l.canonical k ∈ l.fields then strayFault l (place + 1) rest
      else match r.skipFault? with
        | some err => Except.error (place, .broken err)
        | none => strayFault l (place + 1) rest

/-- The error of items beyond the declared fields. -/
def extraFault (e : Entries) : Attempt Unit :=
  let place := e.met.length + e.layout.fields.length
  match e.extra with
  | [] => Except.ok ()
  | .fault err :: _ =>
      if err.cause = .trailingComma ∨ err.cause = .endInList then
        Except.error (place, .broken err)
      else Except.error (place, .tooLong (e.layout.fields.length + e.extra.length))
  | _ => Except.error (place, .tooLong (e.layout.fields.length + e.extra.length))

/-- The record put together from its fields, unless something else in it is at fault. -/
def close {α : Type} (e : Entries) (a : Attempt α) : Except DecodeError α :=
  match (fun x _ _ => x) <$> a <*> strayFault e.layout 0 e.met <*> e.extraFault with
  | .ok x => .ok x
  | .error (_, err) => .error err

end Entries

/-- What a text decodes to. A text that goes on behind the value is at fault, and so is
an array with too many items for its record. -/
def ofText {α : Type} (read : Reading → Except DecodeError α) (text : String) :
    Except DecodeError α := do
  let (r, trailing) := Json.readText text
  let a ← match read r with
    | .error (.tooLong _) => throw (.broken ⟨.trailingCharacters, 0⟩)
    | result => result
  match trailing with
  | none => pure a
  | some e => throw (.broken e)

/-- What a value decodes to. -/
def ofJson {α : Type} (read : Reading → Except DecodeError α) (v : Json) :
    Except DecodeError α :=
  read (.ofJson v)

end Decode

end SchemaCatalog
