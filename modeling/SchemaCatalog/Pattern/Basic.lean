import SchemaCatalog.Pattern.CharSet

/-!
# Patterns

A pattern describes a set of texts. For every position of a text a `Reach` tells at
which positions a match that starts there may end; `Pattern.reach` computes it part by
part, each part once. A pattern is found in a text when it matches from some position on.
-/

set_option autoImplicit false

namespace SchemaCatalog

/-- A pattern over characters. -/
inductive Pattern where
  | empty
  | char (set : CharSet)
  | textStart
  | textEnd
  | seq (first second : Pattern)
  | either (left right : Pattern)
  /-- At least `least` matches one after the other, and at most `most` if there is a bound. -/
  | repeated (body : Pattern) (least : Nat) (most : Option Nat)
deriving DecidableEq, Repr, Inhabited

/-- For each position from the start of a text to its end a set of positions, which are
the bits of a number. -/
structure Reach where
  rows : Array Nat
deriving DecidableEq, Repr, Inhabited

namespace Reach

/-- The positions that are reached from a position. -/
def row (r : Reach) (i : Nat) : Nat := r.rows.getD i 0

/-- The reach that is given for each of some positions. -/
def ofRows (size : Nat) (row : Nat → Nat) : Reach := ⟨Array.ofFn fun i : Fin size => row i⟩

/-- From each position that position alone. -/
def stay (size : Nat) : Reach := ofRows size fun i => Nat.pow 2 i

/-- The positions reached from one of a set of positions. -/
def image (r : Reach) (places : Nat) : Nat :=
  (List.range r.rows.size).foldl
    (fun found i => if places.testBit i then found ||| r.row i else found) 0

/-- One reach after another. -/
def andThen (r s : Reach) : Reach := ⟨r.rows.map s.image⟩

/-- What one of two reaches gives. -/
def orElse (r s : Reach) : Reach := ⟨Array.zipWith (· ||| ·) r.rows s.rows⟩

/-- A reach so many times after itself, by halves. -/
def times (r : Reach) (n : Nat) : Reach :=
  if n = 0 then stay r.rows.size
  else
    let half := times r (n / 2)
    let twice := half.andThen half
    if n % 2 = 0 then twice else twice.andThen r
termination_by n

end Reach

namespace Pattern

/-- Patterns one after the other. -/
def inOrder : List Pattern → Pattern
  | [] => .empty
  | [p] => p
  | p :: rest => .seq p (inOrder rest)

/-- Patterns of which one has to match. -/
def oneOf : List Pattern → Pattern
  | [] => .empty
  | [p] => p
  | p :: rest => .either p (oneOf rest)

/-- Where the matches of a pattern in a text may end, from every position. More rounds
than the text has characters reach no further. -/
def reach (text : Array Char) : Pattern → Reach
  | .empty => .stay (text.size + 1)
  | .char set => .ofRows (text.size + 1) fun i =>
      match text[i]? with
      | some c => if set.contains c then Nat.pow 2 (i + 1) else 0
      | none => 0
  | .textStart => .ofRows (text.size + 1) fun i => if i = 0 then 1 else 0
  | .textEnd => .ofRows (text.size + 1) fun i => if i = text.size then Nat.pow 2 i else 0
  | .seq p q => (reach text p).andThen (reach text q)
  | .either p q => (reach text p).orElse (reach text q)
  | .repeated p least most =>
      let once := reach text p
      let atMostOnce := Reach.orElse (.stay (text.size + 1)) once
      let more := (most.map (· - least)).getD text.size
      (once.times least).andThen (atMostOnce.times more)

/-- Whether the pattern matches some part of a text. -/
def isFoundIn (p : Pattern) (s : String) : Bool :=
  (p.reach s.toList.toArray).rows.any (· != 0)

end Pattern

end SchemaCatalog
