/-
Blank characters: the code points with the white-space property.

The ASCII blanks are among them, and so are the wider ones of the other blocks.
-/

namespace BarArchive.Blank

/-- The blank code points beyond the ranges of tabs and of typographic spaces. -/
def singles : List Nat :=
  [0x20, 0x85, 0xA0, 0x1680, 0x2028, 0x2029, 0x202F, 0x205F, 0x3000]

/-- Whether a character is blank. -/
def isBlank (c : Char) : Bool :=
  let n := c.toNat
  (9 ≤ n && n ≤ 13) || (0x2000 ≤ n && n ≤ 0x200A) || singles.contains n

/-- The text without the blanks in front of it. -/
def dropLeading (cs : List Char) : List Char := cs.dropWhile isBlank

/-- The text without the blanks around it. -/
def trim (cs : List Char) : List Char :=
  (dropLeading (dropLeading cs).reverse).reverse

end BarArchive.Blank
