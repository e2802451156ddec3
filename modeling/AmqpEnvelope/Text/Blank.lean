/-!
# White space

The characters with the Unicode property `White_Space`, and the removal of them
from both ends of a text.
-/

namespace AmqpEnvelope.Text

/-- The character is white space. -/
def isBlank (c : Char) : Bool :=
  let n := c.toNat
  (0x9 ≤ n && n ≤ 0xd) || n == 0x20 || n == 0x85 || n == 0xa0 || n == 0x1680
    || (0x2000 ≤ n && n ≤ 0x200a) || n == 0x2028 || n == 0x2029 || n == 0x202f
    || n == 0x205f || n == 0x3000

/-- Remove white space from both ends of a list of characters. -/
def trimChars (cs : List Char) : List Char :=
  ((cs.dropWhile isBlank).reverse.dropWhile isBlank).reverse

/-- Remove white space from both ends of a text. -/
def trim (text : String) : String := String.ofList (trimChars text.toList)

/-- Replace the letters `A` to `Z` by their lower-case forms; other letters stay
as they are. -/
def asciiLower (text : String) : String := String.ofList (text.toList.map Char.toLower)

end AmqpEnvelope.Text
