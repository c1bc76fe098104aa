import SchemaCatalog.Toml.Moment

/-!
# TOML scalars without quotes

Truth values, numbers, dates and times all are runs of the same characters. Digits may
be grouped with single underscores, and a decimal number has no leading zeros.
-/

set_option autoImplicit false

namespace SchemaCatalog.Toml

/-- Whether a character may stand in a scalar without quotes. -/
def isScalarChar (c : Char) : Bool :=
  c.isAlphanum || c == '_' || c == '+' || c == '-' || c == '.' || c == ':'

/-- A run of digits with single underscores between them, without these. -/
def grouped? (isDigit : Char → Bool) : List Char → Option (List Char)
  | [] => none
  | [c] => if isDigit c then some [c] else none
  | c :: '_' :: rest => if isDigit c then (grouped? isDigit rest).map (c :: ·) else none
  | c :: rest => if isDigit c then (grouped? isDigit rest).map (c :: ·) else none

/-- The digits of a decimal number, which start with a zero only if that is all. -/
def decimalDigits? (cs : List Char) : Option (List Char) :=
  match cs with
  | '0' :: _ :: _ => none
  | cs => grouped? Char.isDigit cs

/-- The value of a digit in any base up to sixteen. -/
def digitValue (c : Char) : Nat :=
  if c.isDigit then c.toNat - 48 else if c.isLower then c.toNat - 87 else c.toNat - 55

def isHexDigit (c : Char) : Bool :=
  c.isDigit || ('a' ≤ c && c ≤ 'f') || ('A' ≤ c && c ≤ 'F')

/-- A whole number in another base. -/
def based? (base : Nat) (isDigit : Char → Bool) (cs : List Char) : Option Int :=
  (grouped? isDigit cs).map fun ds => (ds.foldl (fun n c => base * n + digitValue c) 0 : Nat)

/-- A whole number of any size. -/
def whole? : List Char → Option Int
  | '0' :: 'x' :: cs => based? 16 isHexDigit cs
  | '0' :: 'o' :: cs => based? 8 (fun c => '0' ≤ c && c ≤ '7') cs
  | '0' :: 'b' :: cs => based? 2 (fun c => c == '0' || c == '1') cs
  | cs =>
      let (negative, cs) := Number.takeSign cs
      (decimalDigits? cs).map fun ds =>
        if negative then -(Number.digitsValue ds : Int) else (Number.digitsValue ds : Int)

/-- A whole number of 64 bits. -/
def integer? (cs : List Char) : Option Toml :=
  match whole? cs with
  | some i => if -Int.pow 2 63 ≤ i ∧ i < Int.pow 2 63 then some (.integer i) else none
  | none => none

/-- The exponent of a number, behind its letter. -/
def exponent? (cs : List Char) : Option Int :=
  let (negative, cs) := Number.takeSign cs
  (grouped? Char.isDigit cs).map fun ds =>
    if negative then -(Number.digitsValue ds : Int) else (Number.digitsValue ds : Int)

/-- The fraction and the exponent behind the digits in front; one of them has to be there. -/
def fractionAndExponent? : List Char → Option (List Char × Int)
  | '.' :: cs =>
      let fraction := cs.takeWhile fun c => c.isDigit || c == '_'
      match grouped? Char.isDigit fraction, cs.drop fraction.length with
      | some ds, [] => some (ds, 0)
      | some ds, c :: rest =>
          if c = 'e' ∨ c = 'E' then (exponent? rest).map fun e => (ds, e) else none
      | none, _ => none
  | c :: cs => if c = 'e' ∨ c = 'E' then (exponent? cs).map fun e => ([], e) else none
  | [] => none

/-- A number with a fraction or an exponent, or a word for a value without digits. A
number that is too great is refused. -/
def float? (cs : List Char) : Option Toml :=
  let (negative, cs) := Number.takeSign cs
  if cs = ['i', 'n', 'f'] then some (.float (.infinite negative))
  else if cs = ['n', 'a', 'n'] then some (.float .nan)
  else
    let front := cs.takeWhile fun c => c.isDigit || c == '_'
    match decimalDigits? front, fractionAndExponent? (cs.drop front.length) with
    | some ds, some (fraction, e) =>
        let x := Binary64.ofDecimal negative (Number.digitsValue (ds ++ fraction))
          (e - fraction.length)
        if x = .infinite false then none else some (.float x)
    | _, _ => none

/-- The value of a scalar without quotes. -/
def scalar? (cs : List Char) : Option Toml :=
  if cs = ['t', 'r', 'u', 'e'] then some (.boolean true)
  else if cs = ['f', 'a', 'l', 's', 'e'] then some (.boolean false)
  else (.moment <$> Moment.bare.text? cs) <|> integer? cs <|> float? cs

/-- The characters of a scalar at the front and the rest. A date may be followed by a
space and a time. -/
def spanScalar (cs : List Char) : List Char × List Char :=
  let token := cs.takeWhile isScalarChar
  match cs.drop token.length with
  | ' ' :: d :: rest =>
      if d.isDigit && token.length == 10 && (Moment.date? token).isSome then
        let more := (d :: rest).takeWhile isScalarChar
        (token ++ ' ' :: more, (d :: rest).drop more.length)
      else (token, ' ' :: d :: rest)
  | rest => (token, rest)

end SchemaCatalog.Toml
