import SchemaCatalog.Toml.Scalar

/-!
# Reading TOML documents

A document is a sequence of lines: headers, keys with values, and lines with nothing
but white space and a comment. Each function takes the characters that are left and
gives those behind what it read, or nothing where the document is malformed; a first
argument of type `Nat` bounds the steps.
-/

set_option autoImplicit false

namespace SchemaCatalog.Toml

/-- Something that was read and the characters behind it. -/
abbrev Parsed (α : Type) := Option (α × List Char)

def isBlankChar (c : Char) : Bool := c == ' ' || c == '\t'

def skipBlank (cs : List Char) : List Char := cs.dropWhile isBlankChar

/-- Whether a character may stand in a comment or in quotes without an escape. -/
def isPlainChar (c : Char) : Bool := c == '\t' || (0x20 ≤ c.toNat && c.toNat != 0x7F)

/-- What is left behind a line end at the front. -/
def lineEnd? : List Char → Option (List Char)
  | '\n' :: cs => some cs
  | '\x0d' :: '\n' :: cs => some cs
  | _ => none

/-- What is left behind a comment at the front, if there is one. -/
def skipComment : List Char → List Char
  | '#' :: cs => cs.dropWhile isPlainChar
  | cs => cs

/-- What is left behind the end of a line, with white space and a comment before it. -/
def finishLine? (cs : List Char) : Option (List Char) :=
  match skipComment (skipBlank cs) with
  | [] => some []
  | cs => lineEnd? cs

/-- What is left behind white space, comments and line ends. -/
def skipLines : Nat → List Char → List Char
  | 0, cs => cs
  | fuel + 1, cs =>
      let cs := skipComment (skipBlank cs)
      match lineEnd? cs with
      | some rest => skipLines fuel rest
      | none => cs

/-! ## Strings -/

/-- The character with a number of so many hexadecimal digits at the front. -/
def numbered? (count : Nat) (cs : List Char) : Parsed Char :=
  let ds := cs.take count
  let n := ds.foldl (fun n c => 16 * n + digitValue c) 0
  if ds.length = count ∧ ds.all isHexDigit ∧ (n < 0xD800 ∨ (0xE000 ≤ n ∧ n < 0x110000)) then
    some (Char.ofNat n, cs.drop count)
  else none

/-- The character of an escape behind its backslash. -/
def escape? : List Char → Parsed Char
  | [] => none
  | c :: cs =>
      if c = 'b' then some ('\x08', cs)
      else if c = 't' then some ('\t', cs)
      else if c = 'n' then some ('\n', cs)
      else if c = 'f' then some ('\x0c', cs)
      else if c = 'r' then some ('\x0d', cs)
      else if c = '"' ∨ c = '\\' then some (c, cs)
      else if c = 'u' then numbered? 4 cs
      else if c = 'U' then numbered? 8 cs
      else none

/-- A string with escapes on one line, behind its opening quote. -/
def basicString : Nat → List Char → List Char → Parsed String
  | 0, _, _ => none
  | _ + 1, _, [] => none
  | fuel + 1, read, c :: cs =>
      if c = '"' then some (String.ofList read.reverse, cs)
      else if c = '\\' then
        match escape? cs with
        | some (d, rest) => basicString fuel (d :: read) rest
        | none => none
      else if isPlainChar c then basicString fuel (c :: read) cs
      else none

/-- A string without escapes on one line, behind its opening quote. -/
def literalString (read : List Char) : List Char → Parsed String
  | [] => none
  | c :: cs =>
      if c = '\x27' then some (String.ofList read.reverse, cs)
      else if isPlainChar c then literalString (c :: read) cs
      else none

/-- The quotes at the front of a string over several lines: three or more end it, of
which up to two belong to it, and fewer belong to it. -/
def closing? (quote : Char) (cs : List Char) : Option (Nat × Bool) :=
  let n := (cs.takeWhile (· == quote)).length
  if n < 3 then some (n, false) else if n ≤ 5 then some (n - 3, true) else none

/-- What is left behind white space and line ends. -/
def skipBlankLines : List Char → List Char
  | '\n' :: cs => skipBlankLines cs
  | '\x0d' :: '\n' :: cs => skipBlankLines cs
  | c :: cs => if isBlankChar c then skipBlankLines cs else c :: cs
  | [] => []

/-- What is left behind a backslash at the end of a line: white space, at least one line
end, and all white space and line ends after it. -/
def continuation? (cs : List Char) : Option (List Char) :=
  (lineEnd? (skipBlank cs)).map skipBlankLines

/-- A string over several lines, behind its opening quotes. -/
def multilineString (quote : Char) : Nat → List Char → List Char → Parsed String
  | 0, _, _ => none
  | _ + 1, _, [] => none
  | fuel + 1, read, c :: cs =>
      if c = quote then
        match closing? quote (c :: cs) with
        | some (n, true) =>
            some (String.ofList (List.replicate n quote ++ read).reverse, (c :: cs).drop (n + 3))
        | some (n, false) =>
            multilineString quote fuel (List.replicate n quote ++ read) ((c :: cs).drop n)
        | none => none
      else match lineEnd? (c :: cs) with
        | some rest => multilineString quote fuel ('\n' :: read) rest
        | none =>
            if c = '\\' ∧ quote = '"' then
              match continuation? cs, escape? cs with
              | some rest, _ => multilineString quote fuel read rest
              | none, some (d, rest) => multilineString quote fuel (d :: read) rest
              | none, none => none
            else if isPlainChar c then multilineString quote fuel (c :: read) cs
            else none

/-- A line end right behind the opening quotes does not count. -/
def skipFirstLineEnd (cs : List Char) : List Char := (lineEnd? cs).getD cs

/-- A string of any form at the front. -/
def anyString? (cs : List Char) : Parsed String :=
  match cs with
  | '"' :: '"' :: '"' :: rest => multilineString '"' (rest.length + 1) [] (skipFirstLineEnd rest)
  | '\x27' :: '\x27' :: '\x27' :: rest =>
      multilineString '\x27' (rest.length + 1) [] (skipFirstLineEnd rest)
  | '"' :: rest => basicString (rest.length + 1) [] rest
  | '\x27' :: rest => literalString [] rest
  | _ => none

/-! ## Keys and values -/

def isKeyChar (c : Char) : Bool := c.isAlphanum || c == '_' || c == '-'

/-- One part of a key: bare, or a string on one line. -/
def keyPart? (cs : List Char) : Parsed String :=
  match cs with
  | '"' :: rest => basicString (rest.length + 1) [] rest
  | '\x27' :: rest => literalString [] rest
  | cs =>
      let part := cs.takeWhile isKeyChar
      if part.isEmpty then none else some (String.ofList part, cs.drop part.length)

/-- The parts of a key with dots between them; white space may surround each. -/
def keyParts? : Nat → List Char → Parsed (List String)
  | 0, _ => none
  | fuel + 1, cs =>
      match keyPart? (skipBlank cs) with
      | none => none
      | some (part, rest) =>
          match skipBlank rest with
          | '.' :: rest => (keyParts? fuel rest).map fun p => (part :: p.1, p.2)
          | rest => some ([part], rest)

/-- How many containers may be nested, and how many parts a key may have. -/
def maxDepth : Nat := 79

/-- A key at the front. -/
def key? (cs : List Char) : Parsed (List String) :=
  match keyParts? (cs.length + 1) cs with
  | some (parts, rest) => if parts.length ≤ maxDepth then some (parts, rest) else none
  | none => none

mutual

/-- A value at the front. The second argument bounds the containers that may still be
entered. -/
def value? : Nat → Nat → List Char → Parsed Toml
  | 0, _, _ => none
  | fuel + 1, depth, cs =>
      match cs with
      | [] => none
      | c :: rest =>
          if c = '"' ∨ c = '\x27' then (anyString? (c :: rest)).map fun p => (.string p.1, p.2)
          else if c = '[' then
            if depth = 0 then none
            else (items? fuel (depth - 1) [] rest).map fun p => (.array p.1, p.2)
          else if c = '\x7b' then
            if depth = 0 then none
            else match skipBlank rest with
              | '\x7d' :: rest => some (.table .inlined [], rest)
              | rest => (pairs? fuel (depth - 1) [] rest).map fun p => (.table .inlined p.1, p.2)
          else
            let (token, rest) := spanScalar (c :: rest)
            (scalar? token).map fun v => (v, rest)

/-- The items of an array, behind its opening bracket or a comma. -/
def items? : Nat → Nat → List Toml → List Char → Parsed (List Toml)
  | 0, _, _, _ => none
  | fuel + 1, depth, read, cs =>
      match skipLines (cs.length + 1) cs with
      | ']' :: rest => some (read.reverse, rest)
      | cs =>
          match value? fuel depth cs with
          | none => none
          | some (v, rest) =>
              match skipLines (rest.length + 1) rest with
              | ',' :: rest => items? fuel depth (v :: read) rest
              | ']' :: rest => some ((v :: read).reverse, rest)
              | _ => none

/-- The keys and values of a table between braces, behind the brace or a comma. -/
def pairs? : Nat → Nat → List (String × Toml) → List Char → Parsed (List (String × Toml))
  | 0, _, _, _ => none
  | fuel + 1, depth, entries, cs =>
      match key? cs with
      | some (path, '=' :: rest) =>
          match value? fuel depth (skipBlank rest) with
          | none => none
          | some (v, rest) =>
              match addLine path v .inlined entries, skipBlank rest with
              | some entries, ',' :: rest => pairs? fuel depth entries rest
              | some entries, '\x7d' :: rest => some (entries, rest)
              | _, _ => none
      | _ => none

end

/-! ## Documents -/

/-- The path of a header behind its opening brackets, up to the closing ones. -/
def headerPath? (close : List Char) (cs : List Char) : Parsed (List String) :=
  match key? cs with
  | some (path, rest) =>
      if close.isPrefixOf rest then some (path, rest.drop close.length) else none
  | none => none

/-- The document with a header in it. -/
def addHeaderAt (add : String → Change) (path : List String) (root : List (String × Toml)) :
    Option (List (String × Toml)) :=
  match path.reverse with
  | [] => none
  | key :: rest => within false (add key) rest.reverse .header root

/-- The lines of a document; `current` is the path of the last header. An error is the
text from the malformed line on. -/
def readLines : Nat → List String → List (String × Toml) → List Char →
    Except (List Char) (List (String × Toml))
  | 0, _, _, cs => .error cs
  | fuel + 1, current, root, cs =>
      match skipLines (cs.length + 1) cs with
      | [] => .ok root
      | '[' :: '[' :: line =>
          match headerPath? [']', ']'] line with
          | none => .error line
          | some (path, rest) =>
              match addHeaderAt addElement path root, finishLine? rest with
              | some root, some rest => readLines fuel path root rest
              | _, _ => .error line
      | '[' :: line =>
          match headerPath? [']'] line with
          | none => .error line
          | some (path, rest) =>
              match addHeaderAt addHeader path root, finishLine? rest with
              | some root, some rest => readLines fuel path root rest
              | _, _ => .error line
      | line =>
          match key? line with
          | some (path, '=' :: rest) =>
              match value? (rest.length + 1) maxDepth (skipBlank rest) with
              | none => .error line
              | some (v, rest) =>
                  match within false (addLine path v) current .header root, finishLine? rest with
                  | some root, some rest => readLines fuel current root rest
                  | _, _ => .error line
          | _ => .error line

/-- The table of a whole document, or else the number of its first malformed line. A byte
order mark in front does not count. -/
def ofText (s : String) : Except Nat (List (String × Toml)) :=
  let cs := match s.toList with
    | '\ufeff' :: cs => cs
    | cs => cs
  (readLines (cs.length + 1) [] [] cs).mapError fun rest =>
    cs.count '\n' - rest.count '\n' + 1

end SchemaCatalog.Toml
