import IfCollapse.Text.Ranges

/-!
White space of all scripts.
-/

namespace IfCollapse

def spaceRanges : List (Nat × Nat) :=
  [(0x09, 0x0D), (0x20, 0x20), (0x85, 0x85), (0xA0, 0xA0), (0x1680, 0x1680), (0x2000, 0x200A),
   (0x2028, 0x2029), (0x202F, 0x202F), (0x205F, 0x205F), (0x3000, 0x3000)]

def isSpaceChar (c : Char) : Bool :=
  inRanges spaceRanges c.toNat

def trimSpace (text : List Char) : List Char :=
  ((text.dropWhile isSpaceChar).reverse.dropWhile isSpaceChar).reverse

end IfCollapse
