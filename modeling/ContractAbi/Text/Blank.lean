import ContractAbi.Text.Basic

/-!
# Blank characters

The white space trimmed around annotation arguments, tuple members and field types.
-/

namespace ContractAbi.Text

/-- Unicode white space together with the four information separators U+001C to U+001F. The
zero-width characters U+200B and U+FEFF are not blank. -/
def isBlank (c : CodePoint) : Bool :=
  let n := c.toNat
  (0x09 ≤ n && n ≤ 0x0d) || (0x1c ≤ n && n ≤ 0x20) || n == 0x85 || n == 0xa0 || n == 0x1680 ||
    (0x2000 ≤ n && n ≤ 0x200a) || n == 0x2028 || n == 0x2029 || n == 0x202f || n == 0x205f ||
    n == 0x3000

def trimRight (cs : List CodePoint) : List CodePoint :=
  (cs.reverse.dropWhile isBlank).reverse

def trimChars (cs : List CodePoint) : List CodePoint :=
  trimRight (cs.dropWhile isBlank)

/-- `s` without the blanks at its two ends. -/
def trim (s : Text) : Text :=
  Text.ofList (trimChars s.toList)

end ContractAbi.Text
