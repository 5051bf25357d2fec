import BlockPool.Text.Ranges

/-! Blank text. A character is blank when it has the Unicode property `White_Space`; a text is
blank when trimming it leaves nothing, that is when every character of it is blank. -/

namespace BlockPool.Text

/-- The characters with the property `White_Space`. -/
def blankRanges : Ranges :=
  [(0x09, 0x0D), (0x20, 0x20), (0x85, 0x85), (0xA0, 0xA0), (0x1680, 0x1680), (0x2000, 0x200A),
    (0x2028, 0x2029), (0x202F, 0x202F), (0x205F, 0x205F), (0x3000, 0x3000)]

def isBlank (c : Char) : Bool := blankRanges.contains c

/-- What is left of a text without the blanks at both of its ends. -/
def trim (s : List Char) : List Char :=
  ((s.dropWhile isBlank).reverse.dropWhile isBlank).reverse

end BlockPool.Text
