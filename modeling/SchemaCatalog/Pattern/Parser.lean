import SchemaCatalog.Number.Literal
import SchemaCatalog.Pattern.Written

/-!
# The notation of patterns

Literals, `.`, classes in brackets, groups, alternatives with `|`, the repetitions `*`,
`+`, `?` and those with counts in braces, and the anchors `^` and `$`. A repetition may
be followed by `?`, which changes which match is preferred and not whether there is
one. Each function takes the characters that are left and gives those behind what it
read; the first argument bounds the steps.
-/

set_option autoImplicit false

namespace SchemaCatalog.WrittenPattern

/-- Something that was read and the characters behind it. -/
abbrev Parsed (α : Type) := Option (α × List Char)

/-! ## Escapes -/

/-- What stands behind a backslash. -/
inductive Escape where
  | char (c : Char)
  | set (set : CharSet)
  | textStart
  | textEnd
deriving Repr

/-- The control character that a letter stands for. -/
def controlChar? (c : Char) : Option Char :=
  match c with
  | 'a' => some '\x07'
  | 'f' => some '\x0c'
  | 't' => some '\t'
  | 'n' => some '\n'
  | 'r' => some '\x0d'
  | 'v' => some '\x0b'
  | _ => none

/-- The class that a letter stands for; a capital letter stands for all others. -/
def classLetter? (c : Char) : Option CharSet :=
  match c with
  | 'd' => some (.named .anyDigit)
  | 's' => some (.named .anySpace)
  | 'w' => some (.named .anyWord)
  | 'D' => some (.not (.named .anyDigit))
  | 'S' => some (.not (.named .anySpace))
  | 'W' => some (.not (.named .anyWord))
  | _ => none

/-- Whether a character with a backslash in front stands for itself: all of ASCII but
letters, digits and angle brackets. -/
def isEscapable (c : Char) : Bool :=
  c.toNat < 0x80 && !c.isAlphanum && c != '<' && c != '>'

/-- The character with a number in hexadecimal digits. -/
def numbered? (digits : List Char) : Option Char :=
  let digit (c : Char) : Nat :=
    if c.isDigit then c.toNat - 48 else if c.isLower then c.toNat - 87 else c.toNat - 55
  let n := digits.foldl (fun n c => 16 * n + digit c) 0
  if !digits.isEmpty && digits.all (CharClass.contains .xdigit)
      && (n < 0xD800 || (0xE000 ≤ n && n < 0x110000)) then some (Char.ofNat n)
  else none

/-- The character with a number of so many digits, or of digits between braces. -/
def hexEscape? (count : Nat) : List Char → Parsed Char
  | '\x7b' :: cs =>
      let digits := cs.takeWhile (· != '\x7d')
      match cs.drop digits.length with
      | _ :: rest => (numbered? digits).map fun c => (c, rest)
      | [] => none
  | cs =>
      if cs.length < count then none
      else (numbered? (cs.take count)).map fun c => (c, cs.drop count)

/-- An escape behind its backslash. -/
def escape? : List Char → Parsed Escape
  | [] => none
  | c :: cs =>
      if c = 'x' then (hexEscape? 2 cs).map fun p => (.char p.1, p.2)
      else if c = 'u' then (hexEscape? 4 cs).map fun p => (.char p.1, p.2)
      else if c = 'U' then (hexEscape? 8 cs).map fun p => (.char p.1, p.2)
      else if c = 'A' then some (.textStart, cs)
      else if c = 'z' then some (.textEnd, cs)
      else if isEscapable c then some (.char c, cs)
      else match controlChar? c, classLetter? c with
        | some d, _ => some (.char d, cs)
        | none, some set => some (.set set, cs)
        | none, none => none

/-! ## Classes -/

/-- A set of characters and how deeply its brackets are nested. -/
structure ClassItem where
  set : CharSet
  depth : Nat := 0
deriving Repr

namespace ClassItem

def single (c : Char) : ClassItem := ⟨.single c, 0⟩

/-- All that is in one of some items, given with the last one first. -/
def unite (items : List ClassItem) : ClassItem :=
  match items with
  | [] => ⟨.none, 0⟩
  | [item] => item
  | items =>
      ⟨.anyOf (items.reverse.map ClassItem.set), items.foldl (fun d item => max d item.depth) 0 + 1⟩

/-- Two items combined. -/
def combine (op : CharSet → CharSet → CharSet) (left right : ClassItem) : ClassItem :=
  ⟨op left.set right.set, max left.depth right.depth + 1⟩

/-- A class in brackets. -/
def bracketed (negated : Bool) (item : ClassItem) : ClassItem :=
  ⟨if negated then .not item.set else item.set, item.depth + 1⟩

end ClassItem

/-- A class by its name between colons, behind its opening bracket. -/
def namedClass? : List Char → Parsed ClassItem
  | ':' :: cs =>
      let (negated, cs) := match cs with
        | '^' :: cs => (true, cs)
        | cs => (false, cs)
      let name := cs.takeWhile (· != ':')
      match CharClass.ofName? (String.ofList name), cs.drop name.length with
      | some cls, ':' :: ']' :: rest =>
          some (⟨if negated then .not (.named cls) else .named cls, 0⟩, rest)
      | _, _ => none
  | _ => none

/-- One member of a class, plain or escaped; an anchor is none. -/
def member? : List Char → Parsed Escape
  | [] => none
  | '\\' :: cs => match escape? cs with
      | some (.char c, rest) => some (.char c, rest)
      | some (.set s, rest) => some (.set s, rest)
      | _ => none
  | c :: cs => some (.char c, cs)

/-- A member of a class as a set. -/
def memberItem : Escape → ClassItem
  | .char c => .single c
  | .set s => ⟨s, 0⟩
  | .textStart | .textEnd => ⟨.none, 0⟩

/-- A member or a range. A hyphen in front of another hyphen or of the closing bracket
makes no range. -/
def range? (cs : List Char) : Parsed ClassItem :=
  match member? cs with
  | none | some (_, []) => none
  | some (first, rest) =>
      match rest with
      | '-' :: ']' :: _ | '-' :: '-' :: _ => some (memberItem first, rest)
      | '-' :: bound =>
          match first, member? bound with
          | .char c, some (.char d, rest) =>
              if c.toNat ≤ d.toNat then some (⟨.range c.toNat d.toNat, 0⟩, rest) else none
          | _, _ => none
      | _ => some (memberItem first, rest)

/-- The operation that two equal characters at the front stand for. -/
def classOperation? : List Char → Parsed (CharSet → CharSet → CharSet)
  | '&' :: '&' :: cs => some (.both, cs)
  | '-' :: '-' :: cs => some (.without, cs)
  | '~' :: '~' :: cs => some (.oneOf, cs)
  | _ => none

/-- The hyphens in front, which stand for themselves, and a bracket that comes first. -/
def classFront (read : List ClassItem) : List Char → List ClassItem × List Char
  | '-' :: cs => classFront (.single '-' :: read) cs
  | ']' :: cs => if read.isEmpty then ([.single ']'], cs) else (read, ']' :: cs)
  | cs => (read, cs)

/-- What was combined so far with what follows it. -/
abbrev Pending := ClassItem → ClassItem

mutual

/-- The members of a class up to its closing bracket, the last one read first. -/
def classBody : Nat → Pending → List ClassItem → List Char → Parsed ClassItem
  | 0, _, _, _ => none
  | fuel + 1, pending, read, cs =>
      match cs with
      | [] => none
      | ']' :: rest => some (pending (.unite read), rest)
      | '[' :: rest =>
          match namedClass? rest with
          | some (item, rest) => classBody fuel pending (item :: read) rest
          | none => match bracket fuel rest with
              | some (item, rest) => classBody fuel pending (item :: read) rest
              | none => none
      | cs => match classOperation? cs with
          | some (op, rest) =>
              classBody fuel (ClassItem.combine op (pending (.unite read))) [] rest
          | none => match range? cs with
              | some (item, rest) => classBody fuel pending (item :: read) rest
              | none => none

/-- A class behind its opening bracket. -/
def bracket : Nat → List Char → Parsed ClassItem
  | 0, _ => none
  | fuel + 1, cs =>
      let (negated, cs) := match cs with
        | '^' :: cs => (true, cs)
        | cs => (false, cs)
      let (read, cs) := classFront [] cs
      match classBody fuel id read cs with
      | some (item, rest) => some (item.bracketed negated, rest)
      | none => none

end

/-! ## Repetitions -/

/-- A count of 32 bits, which white space may surround. -/
def count? (cs : List Char) : Parsed Nat :=
  let (digits, rest) := Number.spanDigits (Text.dropBlank cs)
  if digits.isEmpty ∨ Nat.pow 2 32 ≤ Number.digitsValue digits then none
  else some (Number.digitsValue digits, Text.dropBlank rest)

/-- The bounds of a repetition behind its opening brace. -/
def bounds? (cs : List Char) : Parsed (Nat × Option Nat) :=
  match count? cs with
  | some (least, '\x7d' :: rest) => some ((least, some least), rest)
  | some (least, ',' :: '\x7d' :: rest) => some ((least, none), rest)
  | some (least, ',' :: rest) =>
      match count? rest with
      | some (most, '\x7d' :: rest) =>
          if least ≤ most then some ((least, some most), rest) else none
      | _ => none
  | _ => none

/-- The bounds of the repetition at the front, if there is one; the outer option tells
whether what stands there is well formed. -/
def repetition? : List Char → Parsed (Option (Nat × Option Nat))
  | '*' :: cs => some (some (0, none), cs)
  | '+' :: cs => some (some (1, none), cs)
  | '?' :: cs => some (some (0, some 1), cs)
  | '\x7b' :: cs => (bounds? cs).map fun p => (some p.1, p.2)
  | cs => some (none, cs)

/-- A preference mark behind a repetition is skipped. -/
def skipPreference : List Char → List Char
  | '?' :: cs => cs
  | cs => cs

/-- A pattern with the repetitions that follow it. -/
def withRepetitions : Nat → WrittenPattern → List Char → Parsed WrittenPattern
  | 0, _, _ => none
  | fuel + 1, p, cs =>
      match repetition? cs with
      | none => none
      | some (none, rest) => some (p, rest)
      | some (some (least, most), rest) =>
          withRepetitions fuel (.repeated p least most) (skipPreference rest)

/-! ## Groups and alternatives -/

/-- Whether a character may stand in the name of a group: letters and underscores, and
behind the first character also numerals, points and brackets. -/
def isNameChar (first : Bool) (c : Char) : Bool :=
  if first then c == '_' || Text.isLetter c
  else c == '_' || c == '.' || c == '[' || c == ']' || Text.isLetterOrNumeral c

/-- Whether some characters are the name of a group. -/
def isName : List Char → Bool
  | [] => false
  | c :: cs => isNameChar true c && cs.all (isNameChar false)

/-- The name of a group up to its closing angle bracket. -/
def groupName? (cs : List Char) : Parsed String :=
  let name := cs.takeWhile (· != '>')
  match cs.drop name.length with
  | _ :: rest => if isName name then some (String.ofList name, rest) else none
  | [] => none

/-- How a group turns its body into a pattern, by what stands behind its parenthesis. -/
def groupFront? : List Char → Parsed (WrittenPattern → WrittenPattern)
  | '?' :: ':' :: cs => some (.plainGroup, cs)
  | '?' :: 'P' :: '<' :: cs => (groupName? cs).map fun p => (.group (some p.1), p.2)
  | '?' :: '<' :: cs => (groupName? cs).map fun p => (.group (some p.1), p.2)
  | '?' :: _ => none
  | cs => some (.group none, cs)

/-- A single part of a pattern that is no group. -/
def simplePart? : List Char → Parsed WrittenPattern
  | [] => none
  | '*' :: _ | '+' :: _ | '?' :: _ | '\x7b' :: _ => none
  | '[' :: cs =>
      (bracket (2 * cs.length + 2) cs).map fun p => (.char p.1.set p.1.depth, p.2)
  | '.' :: cs => some (.char .exceptLineEnd 0, cs)
  | '^' :: cs => some (.textStart, cs)
  | '$' :: cs => some (.textEnd, cs)
  | '\\' :: cs => match escape? cs with
      | some (.char c, rest) => some (.char (.single c) 0, rest)
      | some (.set s, rest) => some (.char s 0, rest)
      | some (.textStart, rest) => some (.textStart, rest)
      | some (.textEnd, rest) => some (.textEnd, rest)
      | none => none
  | c :: cs => some (.char (.single c) 0, cs)

mutual

/-- Alternatives, up to a closing parenthesis or the end; those before are given with the
last one first. -/
def alternatives : Nat → List WrittenPattern → List Char → Parsed WrittenPattern
  | 0, _, _ => none
  | fuel + 1, before, cs =>
      match sequence fuel [] cs with
      | some (p, '|' :: rest) => alternatives fuel (p :: before) rest
      | some (p, rest) => some (.ofBranches (p :: before).reverse, rest)
      | none => none

/-- Parts one after the other; those before are given with the last one first. -/
def sequence : Nat → List WrittenPattern → List Char → Parsed WrittenPattern
  | 0, _, _ => none
  | fuel + 1, before, cs =>
      match cs with
      | [] => some (.ofParts before.reverse, [])
      | '|' :: _ | ')' :: _ => some (.ofParts before.reverse, cs)
      | cs => match part fuel cs with
          | none => none
          | some (p, rest) => match withRepetitions (rest.length + 1) p rest with
              | some (p, rest) => sequence fuel (p :: before) rest
              | none => none

/-- A single part of a pattern. -/
def part : Nat → List Char → Parsed WrittenPattern
  | 0, _ => none
  | fuel + 1, '(' :: cs =>
      match groupFront? cs with
      | none => none
      | some (wrap, cs) => match alternatives fuel [] cs with
          | some (p, ')' :: rest) => some (wrap p, rest)
          | _ => none
  | _ + 1, cs => simplePart? cs

end

/-- The pattern that a text writes. -/
def ofText? (s : String) : Option WrittenPattern :=
  let cs := s.toList
  match alternatives (3 * cs.length + 3) [] cs with
  | some (p, []) => if p.isWellFormed then some p else none
  | _ => none

end SchemaCatalog.WrittenPattern
