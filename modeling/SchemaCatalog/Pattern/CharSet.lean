import SchemaCatalog.Text.Basic
import SchemaCatalog.Text.Letters

/-!
# Sets of characters

What one place of a pattern can match: ranges of code points, classes with a name, and
combinations of sets. `CharSet.contains` decides membership and follows the structure
of a set, so every combination has its law by definition.
-/

set_option autoImplicit false

namespace SchemaCatalog

/-- The classes of characters that have names. -/
inductive CharClass where
  | alnum
  | alpha
  | ascii
  | blank
  | cntrl
  | digit
  | graph
  | lower
  | print
  | punct
  | space
  | upper
  | word
  | xdigit
  /-- The decimal digits of all scripts. -/
  | anyDigit
  /-- The white space of all scripts. -/
  | anySpace
  /-- Letters, decimal digits, and what joins them, of all scripts. -/
  | anyWord
deriving DecidableEq, Repr, Inhabited

namespace CharClass

/-- The class with a name between colons. -/
def ofName? (name : String) : Option CharClass :=
  match name with
  | "alnum" => some alnum
  | "alpha" => some alpha
  | "ascii" => some ascii
  | "blank" => some blank
  | "cntrl" => some cntrl
  | "digit" => some digit
  | "graph" => some graph
  | "lower" => some lower
  | "print" => some print
  | "punct" => some punct
  | "space" => some space
  | "upper" => some upper
  | "word" => some word
  | "xdigit" => some xdigit
  | _ => none

/-- Whether a character is visible ASCII. -/
def isGraph (c : Char) : Bool := 0x21 ≤ c.toNat && c.toNat ≤ 0x7E

def contains : CharClass → Char → Bool
  | alnum, c => c.isAlphanum
  | alpha, c => c.isAlpha
  | ascii, c => c.toNat ≤ 0x7F
  | blank, c => c == '\t' || c == ' '
  | cntrl, c => c.toNat ≤ 0x1F || c.toNat == 0x7F
  | digit, c => c.isDigit
  | graph, c => isGraph c
  | lower, c => c.isLower
  | print, c => c == ' ' || isGraph c
  | punct, c => isGraph c && !c.isAlphanum
  | space, c => c == ' ' || (0x09 ≤ c.toNat && c.toNat ≤ 0x0D)
  | upper, c => c.isUpper
  | word, c => Text.isWordChar c
  | xdigit, c => c.isDigit || ('a' ≤ c && c ≤ 'f') || ('A' ≤ c && c ≤ 'F')
  | anyDigit, c => Text.isDecimal c
  | anySpace, c => Text.isBlankChar c
  | anyWord, c => Text.isLetter c || Text.isDecimal c || Text.isInRanges Text.joinerRanges c

end CharClass

/-- A set of characters. -/
inductive CharSet where
  | none
  /-- The code points from one to another. -/
  | range (first last : Nat)
  | named (cls : CharClass)
  | not (set : CharSet)
  | either (left right : CharSet)
  | both (left right : CharSet)
  /-- The left set without the right one. -/
  | without (left right : CharSet)
  /-- What is in one of the sets and not in the other. -/
  | oneOf (left right : CharSet)
deriving DecidableEq, Repr, Inhabited

namespace CharSet

def contains : CharSet → Char → Bool
  | none, _ => false
  | range first last, c => first ≤ c.toNat && c.toNat ≤ last
  | named cls, c => cls.contains c
  | not s, c => !s.contains c
  | either s t, c => s.contains c || t.contains c
  | both s t, c => s.contains c && t.contains c
  | without s t, c => s.contains c && !t.contains c
  | oneOf s t, c => s.contains c != t.contains c

/-- One character. -/
def single (c : Char) : CharSet := range c.toNat c.toNat

/-- Any character except the line end. -/
def exceptLineEnd : CharSet := not (single '\n')

/-- All that is in one of some sets. -/
def anyOf : List CharSet → CharSet
  | [] => none
  | [s] => s
  | s :: rest => either s (anyOf rest)

/-- Whether the set may hold characters beyond ASCII. -/
def reachesBeyondAscii : CharSet → Bool
  | none => false
  | range _ last => 0x7F < last
  | named .anyDigit | named .anySpace | named .anyWord => true
  | named _ => false
  | not _ => true
  | either s t | oneOf s t => s.reachesBeyondAscii || t.reachesBeyondAscii
  | both s t => s.reachesBeyondAscii && t.reachesBeyondAscii
  | without s _ => s.reachesBeyondAscii

/-- How many ranges and classes the set is put together from. -/
def pieces : CharSet → Nat
  | none => 0
  | range _ _ | named _ => 1
  | not s => s.pieces
  | either s t | both s t | without s t | oneOf s t => s.pieces + t.pieces

end CharSet

end SchemaCatalog
