namespace PipelineCompiler.Text

/-!
# Blank characters

The characters of Unicode that count as white space, the four information separators
`U+001C`–`U+001F` included.

* `isBlank` — the class;
* `isBlankText` — a text with no other character, the empty text included;
* `trim` — a text without the characters of a class at both ends.
-/

/-- White space. -/
def isBlank (c : Char) : Bool :=
  let n := c.toNat
  (0x09 ≤ n && n ≤ 0x0D) || (0x1C ≤ n && n ≤ 0x20) || n == 0x85 ||
    n == 0xA0 || n == 0x1680 ||
    (0x2000 ≤ n && n ≤ 0x200A) || n == 0x2028 || n == 0x2029 || n == 0x202F || n == 0x205F ||
    n == 0x3000

/-- A text of blanks only. -/
def isBlankText (s : String) : Bool := s.toList.all isBlank

/-- A text without the characters of a class at both ends. -/
def trim (isOuter : Char → Bool) (cs : List Char) : List Char :=
  ((cs.dropWhile isOuter).reverse.dropWhile isOuter).reverse

end PipelineCompiler.Text
