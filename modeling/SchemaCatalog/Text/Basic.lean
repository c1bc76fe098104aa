/-!
# Texts

What every other module asks of texts: how they compare up to ASCII case, which characters
are blank, and the segments of a dotted text.

A path is written as segments with a dot between each two. `segments` takes a text apart and
always gives at least one segment, which is empty where two dots meet or a dot stands at an
end; `dotted` puts segments together.
-/

set_option autoImplicit false

namespace SchemaCatalog.Text

/-! ## ASCII case

Type names and the written truth values are compared without regard to the case of the
letters `A` to `Z`; every other character has to agree exactly. -/

/-- The text with `A` to `Z` turned into `a` to `z`. -/
def lowerAscii (s : String) : String := String.ofList (s.toList.map Char.toLower)

/-- Whether two texts agree up to ASCII case. -/
def sameLetters (a b : String) : Bool := lowerAscii a == lowerAscii b

theorem sameLetters_iff (a b : String) :
    sameLetters a b = true ↔ lowerAscii a = lowerAscii b := by
  simp [sameLetters]

theorem sameLetters_refl (a : String) : sameLetters a a = true := by
  simp [sameLetters]

/-- Whether a character is an ASCII letter, digit or underscore. -/
def isWordChar (c : Char) : Bool := c.isAlphanum || c == '_'

/-! ## Blank characters -/

/-- The code points of the property White_Space, as closed ranges. -/
def blankRanges : List (Nat × Nat) :=
  [(0x09, 0x0D), (0x20, 0x20), (0x85, 0x85), (0xA0, 0xA0), (0x1680, 0x1680),
   (0x2000, 0x200A), (0x2028, 0x2029), (0x202F, 0x202F), (0x205F, 0x205F), (0x3000, 0x3000)]

/-- Whether a character has the property White_Space. -/
def isBlankChar (c : Char) : Bool :=
  blankRanges.any fun r => r.1 ≤ c.toNat && c.toNat ≤ r.2

/-- The characters that are left when the blank ones at the front are dropped. -/
def dropBlank (cs : List Char) : List Char := cs.dropWhile isBlankChar

/-- What starts with a visible character is left as it is. -/
theorem dropBlank_cons_of_not_isBlankChar {c : Char} (cs : List Char)
    (h : isBlankChar c = false) : dropBlank (c :: cs) = c :: cs := by
  simp [dropBlank, h]

/-- A text without the blank characters at its two ends. -/
def trim (s : String) : String :=
  String.ofList (dropBlank (dropBlank s.toList).reverse).reverse

/-- A text is blank when each of its characters is. -/
def isBlank (s : String) : Bool := s.toList.all isBlankChar

theorem isBlank_eq_true_iff (s : String) :
    isBlank s = true ↔ ∀ c ∈ s.toList, isBlankChar c = true := by
  simp [isBlank]

/-! ## Dotted texts -/

/-- The segments of a dotted text. -/
def segments (s : String) : List String := (s.toList.splitOn '.').map String.ofList

/-- Segments written with a dot between each two. -/
def dotted (parts : List String) : String := ".".intercalate parts

/-- The segment after the last dot. -/
def lastSegment (s : String) : String := (segments s).getLastD ""

theorem segments_ne_nil (s : String) : segments s ≠ [] := by
  simp [segments]

end SchemaCatalog.Text
