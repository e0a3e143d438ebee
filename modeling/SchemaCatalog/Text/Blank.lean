/-!
# Blank text

A character is blank when Unicode gives it the property White_Space, and a text when all of its
characters are.
-/

namespace SchemaCatalog.Text

/-- The code points with the property White_Space, as ranges that include both ends. -/
def blankRanges : List (Nat × Nat) :=
  [(0x09, 0x0D), (0x20, 0x20), (0x85, 0x85), (0xA0, 0xA0), (0x1680, 0x1680), (0x2000, 0x200A),
    (0x2028, 0x2029), (0x202F, 0x202F), (0x205F, 0x205F), (0x3000, 0x3000)]

/-- Whether a character has the property White_Space. -/
def isBlankChar (c : Char) : Bool :=
  blankRanges.any fun r => r.1 ≤ c.toNat && c.toNat ≤ r.2

/-- Whether nothing but blank characters is in a text. -/
def isBlank (s : String) : Bool := s.toList.all isBlankChar

end SchemaCatalog.Text
