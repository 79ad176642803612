/-! The characters with the Unicode property `White_Space`, and the text that is left when they are
taken off both ends. -/
namespace RecordRelay.Text

/-- A character is blank when it has the Unicode property `White_Space`. -/
def isBlank (c : Char) : Bool :=
  let n := c.toNat
  (9 ≤ n && n ≤ 13) || n == 0x20 || n == 0x85 || n == 0xA0 || n == 0x1680
    || (0x2000 ≤ n && n ≤ 0x200A) || n == 0x2028 || n == 0x2029 || n == 0x202F || n == 0x205F
    || n == 0x3000

/-- Characters without the blank ones at the start. -/
def dropBlanks (cs : List Char) : List Char := cs.dropWhile isBlank

/-- A text without the blank characters at its two ends. -/
def trim (text : String) : String :=
  String.ofList (dropBlanks (dropBlanks text.toList).reverse).reverse

end RecordRelay.Text
