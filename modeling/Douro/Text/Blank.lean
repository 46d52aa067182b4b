/-!
# Blank characters

The characters with the Unicode property `White_Space`, and the four information separators
`U+001C` to `U+001F`.
-/

namespace Douro

namespace Text

/-- Is a code point that of a blank? -/
def isBlankCode (n : Nat) : Bool :=
  (0x09 ≤ n && n ≤ 0x0d) || (0x1c ≤ n && n ≤ 0x20) || n == 0x85 || n == 0xa0 || n == 0x1680 ||
    (0x2000 ≤ n && n ≤ 0x200a) || n == 0x2028 || n == 0x2029 || n == 0x202f || n == 0x205f ||
    n == 0x3000

/-- Is `c` blank? -/
def isBlank (c : Char) : Bool := isBlankCode c.toNat

/-- A text without the blanks at its two ends. -/
def trimBlanks (cs : List Char) : List Char :=
  ((cs.dropWhile isBlank).reverse.dropWhile isBlank).reverse

end Text

end Douro
