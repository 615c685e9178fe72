/-!
# Blank characters

Two sets of blanks occur in source text. `isBlank` is the Unicode property White_Space; it decides
whether a line is blank. `isFiller` is the set of characters that may stand between two tokens.
-/

namespace ScriptCompiler

/-- The Unicode property White_Space. -/
def isBlank (c : Char) : Bool :=
  let n := c.toNat
  (0x09 ≤ n && n ≤ 0x0D) || n == 0x20 || n == 0x85 || n == 0xA0 || n == 0x1680
    || (0x2000 ≤ n && n ≤ 0x200A) || n == 0x2028 || n == 0x2029 || n == 0x202F || n == 0x205F ||
        n == 0x3000

/-- A text without the blanks at its ends. -/
def trimmed (cs : List Char) : List Char :=
  (((cs.dropWhile isBlank).reverse).dropWhile isBlank).reverse

/-- Characters between tokens: ASCII blanks, the byte order mark, the word joiner and the zero width
space. -/
def isFiller (c : Char) : Bool :=
  let n := c.toNat
  (0x09 ≤ n && n ≤ 0x0D) || n == 0x20 || n == 0xFEFF || n == 0x2060 || n == 0x200B

/-- The blanks that indentation is made of. -/
def isIndentation (c : Char) : Bool := c = ' ' || c = '\t'

end ScriptCompiler
