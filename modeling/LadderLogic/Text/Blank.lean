/-
White space.

`isBlank` is the White_Space property: the 25 code points that a reader of any
script takes for empty space.  `trim` drops them from both ends of a text.
-/

namespace LadderLogic.Text

/-- The White_Space property. -/
def isBlank (c : Char) : Bool :=
  let n := c.toNat
  (0x09 ≤ n && n ≤ 0x0D) || n == 0x20 || n == 0x85 || n == 0xA0 || n == 0x1680 ||
    (0x2000 ≤ n && n ≤ 0x200A) || n == 0x2028 || n == 0x2029 || n == 0x202F ||
    n == 0x205F || n == 0x3000

/-- Drops white space from both ends. -/
def trim (text : List Char) : List Char :=
  ((text.dropWhile isBlank).reverse.dropWhile isBlank).reverse

/-- Nothing but white space. -/
def allBlank (text : List Char) : Bool := text.all isBlank

end LadderLogic.Text
