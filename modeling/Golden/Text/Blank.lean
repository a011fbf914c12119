import Golden.Text.Basic

/-!
# Blank characters

The characters with the Unicode property White_Space, and the text that is left when they are
removed from both ends.

## Main definitions

* `Text.isBlank` — the property White_Space
* `Text.trimmed` — a text without the blanks around it
-/

namespace Golden.Text

/-- Whether a character has the Unicode property White_Space. -/
def isBlank (c : Char) : Bool :=
  let n := c.toNat
  (0x09 ≤ n && n ≤ 0x0d) || n == 0x20 || n == 0x85 || n == 0xa0 || n == 0x1680 ||
    (0x2000 ≤ n && n ≤ 0x200a) || n == 0x2028 || n == 0x2029 || n == 0x202f || n == 0x205f ||
    n == 0x3000

/-- A text without the blank characters at its two ends. -/
def trimmed (text : Text) : Text :=
  ((text.dropWhile isBlank).reverse.dropWhile isBlank).reverse

end Golden.Text
