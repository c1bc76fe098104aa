import SchemaCatalog.Pattern.Basic

/-!
# Patterns as they are written

The structure of a written pattern, with its groups and their names. A written pattern
is taken for a `Pattern` only if it is not nested too deeply, if no two of its groups
share a name, and if the machine that would search for it is not too large.
-/

set_option autoImplicit false

namespace SchemaCatalog

/-- A pattern as it is written. -/
inductive WrittenPattern where
  | nothing
  /-- A set of characters that is written with some depth of brackets. -/
  | char (set : CharSet) (depth : Nat)
  | textStart
  | textEnd
  /-- A group that is remembered, under a name or under its number alone. -/
  | group (name : Option String) (body : WrittenPattern)
  /-- A group that is not remembered. -/
  | plainGroup (body : WrittenPattern)
  | repeated (body : WrittenPattern) (least : Nat) (most : Option Nat)
  | inOrder (parts : List WrittenPattern)
  | oneOf (branches : List WrittenPattern)
deriving Repr, Inhabited

namespace WrittenPattern

/-- Parts one after the other; one part stands for itself. -/
def ofParts : List WrittenPattern → WrittenPattern
  | [] => nothing
  | [p] => p
  | parts => inOrder parts

/-- Branches to choose from; one branch stands for itself. -/
def ofBranches : List WrittenPattern → WrittenPattern
  | [p] => p
  | branches => oneOf branches

/-! ## Meaning -/

mutual

/-- The pattern that is meant. -/
def meaning : WrittenPattern → Pattern
  | nothing => .empty
  | char set _ => .char set
  | textStart => .textStart
  | textEnd => .textEnd
  | group _ body | plainGroup body => meaning body
  | repeated body least most => .repeated (meaning body) least most
  | inOrder parts => .inOrder (meanings parts)
  | oneOf branches => .oneOf (meanings branches)

/-- The patterns that are meant. -/
def meanings : List WrittenPattern → List Pattern
  | [] => []
  | p :: ps => meaning p :: meanings ps

end

/-! ## Limits -/

mutual

/-- How deeply the pattern is nested. -/
def depth : WrittenPattern → Nat
  | nothing | textStart | textEnd => 0
  | char _ depth => depth
  | group _ body | plainGroup body | repeated body _ _ => depth body + 1
  | inOrder parts | oneOf parts => greatestDepth parts + 1

/-- How deeply the deepest of some patterns is nested. -/
def greatestDepth : List WrittenPattern → Nat
  | [] => 0
  | p :: ps => max (depth p) (greatestDepth ps)

end

mutual

/-- The names of the groups, in their order. -/
def names : WrittenPattern → List String
  | nothing | textStart | textEnd | char _ _ => []
  | group name body => name.toList ++ names body
  | plainGroup body | repeated body _ _ => names body
  | inOrder parts | oneOf parts => allNames parts

/-- The names of the groups of some patterns. -/
def allNames : List WrittenPattern → List String
  | [] => []
  | p :: ps => names p ++ allNames ps

end

mutual

/-- Whether the pattern can match the empty text. -/
def canBeEmpty : WrittenPattern → Bool
  | nothing | textStart | textEnd => true
  | char _ _ => false
  | group _ body | plainGroup body => canBeEmpty body
  | repeated body least _ => least == 0 || canBeEmpty body
  | inOrder parts => allCanBeEmpty parts
  | oneOf branches => someCanBeEmpty branches

/-- Whether each of some patterns can match the empty text. -/
def allCanBeEmpty : List WrittenPattern → Bool
  | [] => true
  | p :: ps => canBeEmpty p && allCanBeEmpty ps

/-- Whether one of some patterns can match the empty text. -/
def someCanBeEmpty : List WrittenPattern → Bool
  | [] => false
  | p :: ps => canBeEmpty p || someCanBeEmpty ps

end

/-- The bytes of a state of the machine, of a way out of a choice, and of a range. -/
def stateBytes : Nat := 32
def choiceBytes : Nat := 4
def rangeBytes : Nat := 8

/-- The bytes of the states for a set of characters: one for each byte of a single
character, two for ASCII, and about fifteen otherwise. -/
def setBytes : CharSet → Nat
  | .range first last =>
      if first = last then (Char.ofNat first).utf8Size * stateBytes
      else if last ≤ 0x7F then 2 * stateBytes + rangeBytes
      else 15 * stateBytes
  | set =>
      if set.reachesBeyondAscii then 15 * stateBytes
      else 2 * stateBytes + set.pieces * rangeBytes

/-- The bytes of a repetition of something that takes `body` bytes. -/
def repeatedBytes (body : Nat) (bodyCanBeEmpty : Bool) (least : Nat) : Option Nat → Nat
  | none =>
      let loop := stateBytes + 2 * choiceBytes
      if least = 0 then body + loop + (if bodyCanBeEmpty then 2 * stateBytes else 0)
      else least * body + loop
  | some most =>
      if most = 0 then stateBytes
      else if least = most then least * body
      else least * body + (most - least) * (body + stateBytes + 2 * choiceBytes) + stateBytes

mutual

/-- The bytes of the machine that searches for the pattern. -/
def bytes : WrittenPattern → Nat
  | nothing | textStart | textEnd => stateBytes
  | char set _ => setBytes set
  | group _ body => bytes body + 2 * stateBytes
  | plainGroup body => bytes body
  | repeated body least most => repeatedBytes (bytes body) (canBeEmpty body) least most
  | inOrder parts => allBytes parts
  | oneOf branches => allBytes branches + 2 * stateBytes + branches.length * choiceBytes

/-- The bytes of the machines for some patterns together. -/
def allBytes : List WrittenPattern → Nat
  | [] => 0
  | p :: ps => bytes p + allBytes ps

end

/-- How deeply a pattern may be nested. -/
def maxDepth : Nat := 250

/-- How many bytes the machine of a pattern may take. -/
def maxBytes : Nat := 10 * Nat.pow 2 20

/-- The written pattern is not nested too deeply, and each name has one group. -/
def isWellFormed (p : WrittenPattern) : Bool := p.depth ≤ maxDepth && p.names.Nodup

/-- The machine for the pattern is too large. -/
def isTooLarge (p : WrittenPattern) : Bool := maxBytes < p.bytes

end WrittenPattern

end SchemaCatalog
