/-!
# Blank characters and trimming

Two sets of blank characters occur. `isWhiteSpace` is the Unicode property *White_Space*; it surrounds
number texts and the text fields of a request. `isBlank` adds the four information separators
U+001C to U+001F; it surrounds expressions and setting texts. `trim` removes the blanks at both ends.
-/

namespace Reckoner.Text

set_option autoImplicit false

/-- The Unicode property White_Space. -/
def isWhiteSpace (c : Char) : Bool :=
  let n : Nat := c.toNat
  (0x09 ≤ n && n ≤ 0x0D) || n == 0x20 || n == 0x85 || n == 0xA0 || n == 0x1680
    || (0x2000 ≤ n && n ≤ 0x200A) || n == 0x2028 || n == 0x2029 || n == 0x202F
    || n == 0x205F || n == 0x3000

/-- White space together with the information separators U+001C to U+001F. -/
def isBlank (c : Char) : Bool :=
  isWhiteSpace c || (0x1C ≤ c.toNat && c.toNat ≤ 0x1F)

/-- Removes the longest run of characters in `p` at either end. -/
def trimBy (p : Char → Bool) (text : List Char) : List Char :=
  ((text.dropWhile p).reverse.dropWhile p).reverse

def trim (text : List Char) : List Char :=
  trimBy isBlank text

/-- ASCII capitals become small letters, all other characters stay. -/
def lower (text : List Char) : List Char :=
  text.map Char.toLower

/-! ## Small facts -/

theorem isBlank_of_isWhiteSpace (c : Char) (h : isWhiteSpace c = true) : isBlank c = true := by
  simp [isBlank, h]

end Reckoner.Text
