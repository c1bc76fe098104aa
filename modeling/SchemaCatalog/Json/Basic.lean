import SchemaCatalog.Keyed
import SchemaCatalog.Number.Binary64

/-!
# JSON values

The payloads of the catalog. A whole number that fits into 64 bits, signed or not, is
kept exactly; every other number is a double. The fields of an object are a list of
entries: a value read from a text has them in key order, each key once, while a value
that is written keeps the order in which its fields were put together.
-/

set_option autoImplicit false

namespace SchemaCatalog

/-- A number of a JSON value. -/
inductive JsonNumber where
  | int (value : Int)
  | real (value : Binary64)
deriving DecidableEq, Repr, Inhabited

/-- A JSON value. -/
inductive Json where
  | null
  | bool (value : Bool)
  | number (value : JsonNumber)
  | string (value : String)
  | array (items : List Json)
  | object (fields : List (String × Json))
deriving Repr, Inhabited

namespace JsonNumber

/-- The double nearest to a number. -/
def toBinary64 : JsonNumber → Binary64
  | .int i => Binary64.ofInt i
  | .real x => x

/-- Equality of numbers; a whole number and a double never agree. -/
def sameValue : JsonNumber → JsonNumber → Bool
  | .int i, .int j => i == j
  | .real x, .real y => x.sameValue y
  | _, _ => false

end JsonNumber

namespace Json

/-- A natural number as a value. -/
def nat (n : Nat) : Json := .number (.int n)

/-- A finite double as a value, and null for every other. -/
def double (x : Binary64) : Json := if x.isFinite then .number (.real x) else .null

def isNull : Json → Bool
  | .null => true
  | _ => false

mutual

/-- Equality of values, with doubles compared by value. -/
def sameValue : Json → Json → Bool
  | .null, .null => true
  | .bool a, .bool b => a == b
  | .number a, .number b => a.sameValue b
  | .string a, .string b => a == b
  | .array as, .array bs => sameItems as bs
  | .object as, .object bs => sameFields as bs
  | _, _ => false

/-- Equality of lists of values. -/
def sameItems : List Json → List Json → Bool
  | [], [] => true
  | a :: as, b :: bs => sameValue a b && sameItems as bs
  | _, _ => false

/-- Equality of lists of fields. -/
def sameFields : List (String × Json) → List (String × Json) → Bool
  | [], [] => true
  | (k, a) :: as, (l, b) :: bs => k == l && sameValue a b && sameFields as bs
  | _, _ => false

end

mutual

/-- A value is canonical when every object in it has its fields in key order, each key
once. -/
def Canonical : Json → Prop
  | .array items => CanonicalItems items
  | .object fields => Keyed.Sorted fields ∧ CanonicalFields fields
  | _ => True

/-- Every value of a list is canonical. -/
def CanonicalItems : List Json → Prop
  | [] => True
  | v :: vs => Canonical v ∧ CanonicalItems vs

/-- The value of every field is canonical. -/
def CanonicalFields : List (String × Json) → Prop
  | [] => True
  | (_, v) :: rest => Canonical v ∧ CanonicalFields rest

end

theorem canonicalItems_iff (items : List Json) :
    CanonicalItems items ↔ ∀ v ∈ items, Canonical v := by
  induction items with
  | nil => simp [CanonicalItems]
  | cons v vs ih => simp [CanonicalItems, ih]

theorem canonicalFields_iff (fields : List (String × Json)) :
    CanonicalFields fields ↔ ∀ e ∈ fields, Canonical e.2 := by
  induction fields with
  | nil => simp [CanonicalFields]
  | cons e rest ih => obtain ⟨k, v⟩ := e; simp [CanonicalFields, ih]

end Json

end SchemaCatalog
