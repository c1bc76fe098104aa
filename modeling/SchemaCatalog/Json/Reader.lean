import SchemaCatalog.Json.Reading
import SchemaCatalog.Number.Literal

/-!
# Reading JSON texts

`readText` reads a text from the front. It never fails: where the grammar is broken
the reading ends with the fault, and what follows a whole value is reported apart.
Each function takes the characters that are left and gives those after what it read,
or none when the reading stopped.
-/

set_option autoImplicit false

namespace SchemaCatalog.Json

/-- The bytes that some characters take. -/
def byteCount (cs : List Char) : Nat := cs.foldl (fun n c => n + c.utf8Size) 0

/-- A fault in front of some characters. -/
def faultBefore (cause : SyntaxCause) (cs : List Char) : SyntaxError := ⟨cause, byteCount cs⟩

/-- A fault at the first byte of some characters. -/
def faultAt (cause : SyntaxCause) (cs : List Char) : SyntaxError := ⟨cause, byteCount cs - 1⟩

/-- Whether a character may stand between two tokens. -/
def isSpace (c : Char) : Bool := c == ' ' || c == '\n' || c == '\t' || c == '\x0d'

def skipSpace (cs : List Char) : List Char := cs.dropWhile isSpace

/-- How many containers may be nested. -/
def maxDepth : Nat := 127

/-! ## Scalars -/

/-- The characters after a word that has to stand here. -/
def expectWord : List Char → List Char → Except SyntaxError (List Char)
  | [], cs => pure cs
  | _ :: _, [] => throw (faultBefore .endInValue [])
  | e :: es, c :: cs => if c = e then expectWord es cs else throw (faultAt .expectedWord (c :: cs))

/-- The digits after a point, of which there has to be one. -/
def readFraction (cs : List Char) : Except SyntaxError (List Char × List Char) :=
  match Number.spanDigits cs with
  | ([], []) => throw (faultAt .endInValue [])
  | ([], rest) => throw (faultAt .invalidNumber rest)
  | spanned => pure spanned

/-- The exponent after its letter. -/
def readExponent (cs : List Char) : Except SyntaxError (Int × List Char) :=
  let (negative, cs) := Number.takeSign cs
  match Number.spanDigits cs with
  | ([], rest) => throw (if rest.isEmpty then faultBefore .endInValue [] else faultAt .invalidNumber rest)
  | (digits, rest) =>
      let e : Int := Number.digitsValue digits
      pure (if negative then -e else e, rest)

/-- The digits before the point: a zero alone, or a run that starts with another digit. -/
def readWhole : List Char → Except SyntaxError (List Char × List Char)
  | [] => throw (faultBefore .endInValue [])
  | c :: cs =>
      if c = '0' then
        match cs with
        | d :: _ => if d.isDigit then throw (faultAt .invalidNumber cs) else pure (['0'], cs)
        | [] => pure (['0'], cs)
      else if c.isDigit then pure (Number.spanDigits (c :: cs))
      else throw (faultAt .invalidNumber (c :: cs))

/-- A number without point and exponent: kept exactly if it fits into 64 bits. The zero
with a minus is a double. -/
def wholeNumber (negative : Bool) (n : Nat) : JsonNumber :=
  if negative then
    if n = 0 ∨ n > Nat.pow 2 63 then .real (Binary64.ofDecimal true n 0) else .int (-(n : Int))
  else if n < Nat.pow 2 64 then .int n else .real (Binary64.ofDecimal false n 0)

/-- A point with its digits at the front, if there is one. -/
def readFraction? : List Char → Except SyntaxError (Option (List Char) × List Char)
  | '.' :: cs => do
      let (digits, rest) ← readFraction cs
      pure (some digits, rest)
  | cs => pure (none, cs)

/-- An exponent with its letter at the front, if there is one. -/
def readExponent? : List Char → Except SyntaxError (Option Int × List Char)
  | [] => pure (none, [])
  | c :: cs =>
      if c = 'e' ∨ c = 'E' then do
        let (e, rest) ← readExponent cs
        pure (some e, rest)
      else pure (none, c :: cs)

/-- A number after its sign. -/
def readNumber (negative : Bool) (cs : List Char) :
    Except SyntaxError (JsonNumber × List Char) := do
  let (whole, rest) ← readWhole cs
  let (fraction?, rest) ← readFraction? rest
  let (exponent?, rest) ← readExponent? rest
  match fraction?, exponent? with
  | none, none => pure (wholeNumber negative (Number.digitsValue whole), rest)
  | _, _ =>
      let fraction := fraction?.getD []
      let digits := Number.digitsValue (whole ++ fraction)
      let exponent := exponent?.getD 0 - fraction.length
      pure (.real (Binary64.ofDecimal negative digits exponent), rest)

/-- Where in a string literal the next character stands. -/
inductive StringPlace where
  | plain
  | escape
  /-- Inside four hexadecimal digits; `after` bytes follow the fourth, and `high` is the
  first half of a surrogate pair. -/
  | unit (count value after : Nat) (high : Option Nat)
  | afterHigh (high : Nat)
  | afterHighEscape (high : Nat)

/-- The character of an escape of two characters. -/
def unescape (c : Char) : Option Char :=
  if c = '"' ∨ c = '\\' ∨ c = '/' then some c
  else if c = 'b' then some '\x08'
  else if c = 'f' then some '\x0c'
  else if c = 'n' then some '\n'
  else if c = 'r' then some '\x0d'
  else if c = 't' then some '\t'
  else none

/-- The value of a hexadecimal digit. -/
def hexDigit? (c : Char) : Option Nat :=
  if c.isDigit then some (c.toNat - 48)
  else if 'a' ≤ c ∧ c ≤ 'f' then some (c.toNat - 87)
  else if 'A' ≤ c ∧ c ≤ 'F' then some (c.toNat - 55)
  else none

/-- The place after the letter of a numbered escape, for which four bytes have to be left. -/
def enterUnit (cs : List Char) (high : Option Nat) : Except SyntaxError StringPlace :=
  if byteCount cs < 4 then throw (faultBefore .endInString [])
  else pure (.unit 0 0 (byteCount cs - 4) high)

/-- The character or the place that four hexadecimal digits lead to. -/
def finishUnit (value after : Nat) : Option Nat → Except SyntaxError (Option Char × StringPlace)
  | none =>
      if 0xDC00 ≤ value ∧ value ≤ 0xDFFF then throw ⟨.loneSurrogate, after⟩
      else if 0xD800 ≤ value ∧ value ≤ 0xDBFF then pure (none, .afterHigh value)
      else pure (some (Char.ofNat value), .plain)
  | some high =>
      if 0xDC00 ≤ value ∧ value ≤ 0xDFFF then
        pure (some (Char.ofNat (0x10000 + (high - 0xD800) * 0x400 + (value - 0xDC00))), .plain)
      else throw ⟨.loneSurrogate, after⟩

/-- The characters of a string literal after its opening quote; `read` holds those read
so far, the last one first. -/
def readString (place : StringPlace) (read : List Char) :
    List Char → Except SyntaxError (String × List Char)
  | [] => throw (faultBefore .endInString [])
  | c :: cs =>
      match place with
      | .plain =>
          if c = '"' then pure (String.ofList read.reverse, cs)
          else if c = '\\' then readString .escape read cs
          else if c.toNat < 0x20 then throw (faultBefore .controlCharacter cs)
          else readString .plain (c :: read) cs
      | .escape =>
          if c = 'u' then do
            let place ← enterUnit cs none
            readString place read cs
          else match unescape c with
            | some d => readString .plain (d :: read) cs
            | none => throw (faultAt .invalidEscape (c :: cs))
      | .unit count value after high =>
          match hexDigit? c with
          | none => throw ⟨.invalidEscape, after⟩
          | some d =>
              if count < 3 then readString (.unit (count + 1) (16 * value + d) after high) read cs
              else do
                let (char?, place) ← finishUnit (16 * value + d) after high
                readString place (char?.toList ++ read) cs
      | .afterHigh high =>
          if c = '\\' then readString (.afterHighEscape high) read cs
          else throw (faultAt .unfinishedSurrogatePair (c :: cs))
      | .afterHighEscape high =>
          if c = 'u' then do
            let place ← enterUnit cs (some high)
            readString place read cs
          else throw (faultAt .unfinishedSurrogatePair (c :: cs))

/-! ## Skipping

A value that nobody asks for is skipped by its outline alone: nesting has no limit,
numbers have no size, and numbered escapes only need their digits. -/

/-- The characters after a string literal, from behind its opening quote. -/
def skipString : List Char → Except SyntaxError (List Char)
  | [] => throw (faultBefore .endInString [])
  | '"' :: cs => pure cs
  | ['\\'] => throw (faultBefore .endInString [])
  | '\\' :: 'u' :: a :: b :: c :: d :: cs =>
      if [a, b, c, d].all fun x => (hexDigit? x).isSome then skipString cs
      else throw ⟨.invalidEscape, byteCount [a, b, c, d] + byteCount cs - 4⟩
  | '\\' :: 'u' :: cs =>
      if byteCount cs < 4 then throw (faultBefore .endInString [])
      else throw ⟨.invalidEscape, byteCount cs - 4⟩
  | '\\' :: c :: cs => match unescape c with
      | some _ => skipString cs
      | none => throw (faultAt .invalidEscape (c :: cs))
  | c :: cs =>
      if c.toNat < 0x20 then throw (faultAt .controlCharacter (c :: cs)) else skipString cs

/-- The characters after digits, of which there has to be one. -/
def skipDigits (cs : List Char) : Except SyntaxError (List Char) :=
  match Number.spanDigits cs with
  | ([], rest) => throw (faultAt .invalidNumber rest)
  | (_, rest) => pure rest

/-- The characters after an exponent, if one stands at the front. -/
def skipExponent : List Char → Except SyntaxError (List Char)
  | [] => pure []
  | c :: cs => if c = 'e' ∨ c = 'E' then skipDigits (Number.takeSign cs).2 else pure (c :: cs)

/-- The characters after a fraction and an exponent, if they stand at the front. -/
def skipFraction : List Char → Except SyntaxError (List Char)
  | '.' :: cs => skipDigits cs >>= skipExponent
  | cs => skipExponent cs

/-- The characters after a number without its sign. -/
def skipNumber : List Char → Except SyntaxError (List Char)
  | '0' :: c :: cs =>
      if c.isDigit then throw (faultAt .invalidNumber (c :: cs)) else skipFraction (c :: cs)
  | cs => skipDigits cs >>= skipFraction

mutual

/-- The characters after a value in some containers, the innermost first, and after
the ends of these containers. -/
def skipValue : Nat → List Char → List Char → Except SyntaxError (List Char)
  | 0, _, _ => throw (faultBefore .endInValue [])
  | fuel + 1, containers, cs =>
      match skipSpace cs with
      | [] => throw (faultAt .endInValue [])
      | c :: rest =>
          if c = '[' ∨ c = '\x7b' then skipOn fuel (c :: containers) true rest
          else if c = '"' then skipString rest >>= skipOn fuel containers false
          else if c = '-' then skipNumber rest >>= skipOn fuel containers false
          else if c.isDigit then skipNumber (c :: rest) >>= skipOn fuel containers false
          else if c = 'n' then expectWord "ull".toList rest >>= skipOn fuel containers false
          else if c = 't' then expectWord "rue".toList rest >>= skipOn fuel containers false
          else if c = 'f' then expectWord "alse".toList rest >>= skipOn fuel containers false
          else throw (faultAt .expectedValue (c :: rest))

/-- The characters after the rest of some containers; the flag tells whether nothing
stands in the innermost one yet. -/
def skipOn : Nat → List Char → Bool → List Char → Except SyntaxError (List Char)
  | 0, _, _, _ => throw (faultBefore .endInValue [])
  | _ + 1, [], _, cs => pure cs
  | fuel + 1, frame :: containers, first, cs =>
      let inList := frame == '['
      match skipSpace cs with
      | [] => throw (faultAt (if inList then .endInList else .endInObject) [])
      | c :: rest =>
          if c = (if inList then ']' else '\x7d') then skipOn fuel containers false rest
          else if first then skipEntry fuel (frame :: containers) (c :: rest)
          else if c = ',' then skipEntry fuel (frame :: containers) rest
          else throw (faultAt (if inList then .expectedListCommaOrEnd
            else .expectedObjectCommaOrEnd) (c :: rest))

/-- The characters after the next item or field of the innermost container and after all
that follows it. -/
def skipEntry : Nat → List Char → List Char → Except SyntaxError (List Char)
  | 0, _, _ => throw (faultBefore .endInValue [])
  | fuel + 1, containers, cs =>
      if containers.head? = some '[' then skipValue fuel containers cs
      else match skipSpace cs with
        | [] => throw (faultAt .endInObject [])
        | '"' :: rest => do
            let rest ← skipString rest
            match skipSpace rest with
            | [] => throw (faultAt .endInObject [])
            | ':' :: rest => skipValue fuel containers rest
            | rest => throw (faultAt .expectedColon rest)
        | rest => throw (faultAt .keyNotString rest)

end

/-! ## Values -/

/-- What was read of a value, and the characters after it unless reading stopped. -/
abbrev Step (α : Type) := α × Option (List Char)

/-- A scalar that was read, or the fault at which reading stopped. -/
def scalarStep {α : Type} (wrap : α → Reading) :
    Except SyntaxError (α × List Char) → Step Reading
  | .ok (a, rest) => (wrap a, some rest)
  | .error e => (.fault e, none)

/-- A number that was read; one beyond the doubles is a fault. -/
def numberStep : Except SyntaxError (JsonNumber × List Char) → Step Reading
  | .ok (.real (.infinite _), rest) => (.fault (faultBefore .numberOutOfRange rest), none)
  | step => scalarStep .number step

/-- Reading stops in front of some characters. -/
def stopAt (cause : SyntaxCause) (cs : List Char) : Reading := .fault (faultAt cause cs)

mutual

/-- The value at the front of some characters. The first argument bounds the steps and
the second the containers that may still be entered. -/
def readValue : Nat → Nat → List Char → Step Reading
  | 0, _, _ => (stopAt .endInValue [], none)
  | fuel + 1, depth, cs =>
      match skipSpace cs with
      | [] => (stopAt .endInValue [], none)
      | c :: rest =>
          if c = '"' then scalarStep .string (readString .plain [] rest)
          else if c = '[' then
            if depth = 0 then (stopAt .tooDeep (c :: rest), none)
            else
              let (items, after) := readItems fuel (depth - 1) true rest
              (.array items, after)
          else if c = '\x7b' then
            if depth = 0 then (stopAt .tooDeep (c :: rest), none)
            else
              let (fields, after) := readFields fuel (depth - 1) true rest
              (.object fields, after)
          else if c = '-' then numberStep (readNumber true rest)
          else if c.isDigit then numberStep (readNumber false (c :: rest))
          else if c = 'n' then
            scalarStep (fun _ => .null) ((((), ·)) <$> expectWord "ull".toList rest)
          else if c = 't' then
            scalarStep (fun _ => .bool true) ((((), ·)) <$> expectWord "rue".toList rest)
          else if c = 'f' then
            scalarStep (fun _ => .bool false) ((((), ·)) <$> expectWord "alse".toList rest)
          else (stopAt .expectedValue (c :: rest), none)

/-- The items of an array after its bracket or, if it is not the first, after an item. -/
def readItems : Nat → Nat → Bool → List Char → Step (List Reading)
  | 0, _, _, _ => ([stopAt .endInList []], none)
  | fuel + 1, depth, first, cs =>
      let item (cs : List Char) : Step (List Reading) :=
        match readValue fuel depth cs with
        | (r, none) => ([r], none)
        | (r, some rest) =>
            let (rs, after) := readItems fuel depth false rest
            (r :: rs, after)
      match skipSpace cs with
      | [] => ([stopAt .endInList []], none)
      | c :: rest =>
          if c = ']' then ([], some rest)
          else if first then item (c :: rest)
          else if c = ',' then
            match skipSpace rest with
            | [] => ([stopAt .endInValue []], none)
            | d :: rest =>
                if d = ']' then ([stopAt .trailingComma (d :: rest)], none) else item (d :: rest)
          else ([stopAt .expectedListCommaOrEnd (c :: rest)], none)

/-- The fields of an object after its brace or, if it is not the first, after a field. A
fault where a key should stand is a field without a name. -/
def readFields : Nat → Nat → Bool → List Char → Step (List (String × Reading))
  | 0, _, _, _ => ([("", stopAt .endInObject [])], none)
  | fuel + 1, depth, first, cs =>
      let field (cs : List Char) : Step (List (String × Reading)) :=
        match cs with
        | '"' :: rest =>
            match readString .plain [] rest with
            | .error e => ([("", .fault e)], none)
            | .ok (key, rest) =>
                match skipSpace rest with
                | [] => ([(key, stopAt .endInObject [])], none)
                | ':' :: rest =>
                    match readValue fuel depth rest with
                    | (r, some rest) =>
                        let (rs, after) := readFields fuel depth false rest
                        ((key, r) :: rs, after)
                    | (r, none) => match skipValue (3 * rest.length + 3) [] rest with
                        | .error e => ([(key, .unfinished r (some e))], none)
                        | .ok rest =>
                            let (rs, after) := readFields fuel depth false rest
                            ((key, .unfinished r none) :: rs, after)
                | rest => ([(key, stopAt .expectedColon rest)], none)
        | cs => ([("", stopAt .keyNotString cs)], none)
      match skipSpace cs with
      | [] => ([("", stopAt .endInObject [])], none)
      | c :: rest =>
          if c = '\x7d' then ([], some rest)
          else if first then field (c :: rest)
          else if c = ',' then
            match skipSpace rest with
            | [] => ([("", stopAt .endInValue [])], none)
            | d :: rest =>
                if d = '\x7d' then ([("", stopAt .trailingComma (d :: rest))], none)
                else field (d :: rest)
          else ([("", stopAt .expectedObjectCommaOrEnd (c :: rest))], none)

end

/-- The reading of a text, and the fault of what follows the value. -/
def readText (text : String) : Reading × Option SyntaxError :=
  let cs := text.toList
  let (r, after) := readValue (2 * cs.length + 2) maxDepth cs
  match skipSpace (after.getD []) with
  | [] => (r, none)
  | rest => (r, some (faultAt .trailingCharacters rest))

/-- The value that a text stands for. -/
def ofText? (text : String) : Except SyntaxError Json := do
  let (r, trailing) := readText text
  let v ← r.value?
  match trailing with
  | none => pure v
  | some e => throw e

end SchemaCatalog.Json
