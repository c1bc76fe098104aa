import SchemaCatalog.Form.Basic
import SchemaCatalog.Text.Basic

/-!
# Record linkers

A record linker fills the fields of a record from the data of a transaction: each field
has an expression that refers to that data by paths, which `DataPath.extract` finds.
-/

set_option autoImplicit false

namespace SchemaCatalog

/-- A mapping from the fields of a record to expressions over a transaction. -/
structure RecordLinker where
  recordDefinitionKey : String
  recordSchemaKey : String
  /-- The expression of each field, in the order of the fields. -/
  fieldMappings : List (String × String)
deriving DecidableEq, Repr, Inhabited

/-- The faults of a record linker: of the expressions and of the fields. -/
structure LinkerErrors where
  recordDefinitionKey : String
  fieldValueErrors : List ValidationError
  fieldKeyErrors : List ValidationError
deriving DecidableEq, Repr, Inhabited

def LinkerErrors.isEmpty (e : LinkerErrors) : Bool :=
  e.fieldValueErrors.isEmpty && e.fieldKeyErrors.isEmpty

/-! ## Data paths in expressions

An expression refers to the data of a transaction by `data.` and a path of segments,
each of ASCII letters, digits and underscores. The word `data` must not be the end of a
longer word or path. The search goes from left to right, and what a reference takes up
is not looked at again; the character in front of a reference belongs to it. -/

namespace DataPath

/-- The word in front of every path. -/
def keyword : List Char := ['d', 'a', 't', 'a', '.']

/-- What is left behind the keyword at the front of some characters. -/
def afterKeyword? (cs : List Char) : Option (List Char) :=
  if keyword.isPrefixOf cs then some (cs.drop keyword.length) else none

/-- Whether a character in front of the keyword makes it part of something else. -/
def continues (c : Char) : Bool := Text.isWordChar c || c == '.'

/-- The longest path at the front: runs of word characters with a dot between each two.
The flag tells whether a dot may come next, the path so far being complete. -/
def pathLength (afterSegment : Bool) : List Char → Nat
  | [] => 0
  | c :: cs =>
      if Text.isWordChar c then pathLength true cs + 1
      else if c == '.' && afterSegment then
        match cs with
        | d :: _ => if Text.isWordChar d then pathLength false cs + 1 else 0
        | [] => 0
      else 0

/-- The path of a reference whose keyword stands at the front, if there is one. -/
def reference? (cs : List Char) : Option (List Char) :=
  match afterKeyword? cs with
  | none => none
  | some rest =>
      let path := rest.take (pathLength false rest)
      if path.isEmpty then none else some path

/-- The paths of the references among some characters. The first argument counts the
characters that a reference still takes up, and the second tells whether a keyword may
stand here. -/
def scan : Nat → Bool → List Char → List (List Char)
  | _, _, [] => []
  | skip + 1, _, _ :: cs => scan skip false cs
  | 0, false, c :: cs => scan 0 (!continues c) cs
  | 0, true, c :: cs =>
      match reference? (c :: cs) with
      | some path => path :: scan (keyword.length + path.length - 1) false cs
      | none => scan 0 (!continues c) cs

/-- The paths that an expression refers to, in the order of the references. -/
def extract (expression : String) : List String :=
  (scan 0 true expression.toList).map String.ofList

end DataPath

end SchemaCatalog
