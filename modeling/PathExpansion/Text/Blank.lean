import PathExpansion.Text.Ranges

/-!
# Blank characters

The characters that separate words: the Unicode property `White_Space` together with the four
information separators U+001C to U+001F, which count as blank for their bidirectional class.
-/

namespace PathExpansion.Text

/-- The blank code points, as ascending closed intervals. -/
def blankRanges : Array (Nat × Nat) := #[
  (9, 13), (28, 32), (133, 133), (160, 160), (5760, 5760), (8192, 8202), (8232, 8233),
  (8239, 8239), (8287, 8287), (12288, 12288)]

/-- Blank characters, the class of `\s`. -/
def isBlank (c : Char) : Bool := Ranges.contains blankRanges c.toNat

/-- The blank characters of ASCII: the space and U+0009 to U+000D. -/
def isAsciiBlank (c : Char) : Bool := c == ' ' || (9 ≤ c.toNat && c.toNat ≤ 13)

end PathExpansion.Text
