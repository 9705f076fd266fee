/-! White space. Unicode's property `White_Space` and the wider class with the four information
separators are told apart, for a rule of trimming names one or the other. -/
namespace Runbook.Text

/-- The characters with the Unicode property `White_Space`. -/
def isWhite (c : Char) : Bool :=
  let n := c.toNat
  (0x09 ≤ n && n ≤ 0x0d) || n == 0x20 || n == 0x85 || n == 0xa0 || n == 0x1680 ||
    (0x2000 ≤ n && n ≤ 0x200a) || n == 0x2028 || n == 0x2029 || n == 0x202f || n == 0x205f || n == 0x3000

/-- White space, or one of the separators U+001C to U+001F. -/
def isBlank (c : Char) : Bool :=
  isWhite c || (0x1c ≤ c.toNat && c.toNat ≤ 0x1f)

/-- A text without the characters of a class at its end. -/
def trimEnd (drop : Char → Bool) (s : String) : String :=
  String.ofList (s.toList.reverse.dropWhile drop).reverse

/-- A text without the characters of a class at either end. -/
def trim (drop : Char → Bool) (s : String) : String :=
  String.ofList ((s.toList.dropWhile drop).reverse.dropWhile drop).reverse

end Runbook.Text
