/-!
# Blank characters and loose matching of words

A word typed by a person may be surrounded by blanks and may be written in either case. Blanks are
the characters with the Unicode property White_Space; letter case is folded for ASCII letters only,
so a word with an accented capital stays different from the plain one.
-/

namespace PrivateLift.Text

/-- The characters with the Unicode property White_Space: the controls from tab to carriage return,
the space, next line, the no-break space, and the spaces and separators beyond Latin-1. -/
def isBlank (c : Char) : Bool :=
  let n := c.toNat
  (0x9 ≤ n && n ≤ 0xD) || n == 0x20 || n == 0x85 || n == 0xA0 || n == 0x1680 ||
    (0x2000 ≤ n && n ≤ 0x200A) || n == 0x2028 || n == 0x2029 || n == 0x202F || n == 0x205F ||
    n == 0x3000

/-- The text without the blanks at its two ends. -/
def trim (cs : List Char) : List Char :=
  ((cs.dropWhile isBlank).reverse.dropWhile isBlank).reverse

/-- The word that a person meant by a text: without surrounding blanks, in lower case. -/
def word (s : String) : String :=
  String.ofList ((trim s.toList).map Char.toLower)

end PrivateLift.Text
