import RecordRelay.Text.Hexadecimal
import RecordRelay.Text.Unprintable

/-! The form in which descriptions show a text: in double quotes, with the quote, the backslash and
the characters that do not print escaped. Numbered escapes are hexadecimal without leading zeros. -/
namespace RecordRelay.Text

/-- The digits of a number in hexadecimal, without leading zeros. -/
def shortHex (value : Nat) : List Char := Nat.toDigits 16 value

/-- A character as it stands in a quoted text. -/
def showChar (c : Char) : List Char :=
  if c = '"' then ['\\', '"']
  else if c = '\\' then ['\\', '\\']
  else if c = '\x00' then ['\\', '0']
  else if c = '\t' then ['\\', 't']
  else if c = '\n' then ['\\', 'n']
  else if c = '\r' then ['\\', 'r']
  else if c.toNat < 0x20 || isUnprintable c then
    '\\' :: 'u' :: '\x7b' :: (shortHex c.toNat ++ ['\x7d'])
  else [c]

def quoted (text : String) : String :=
  String.ofList ('"' :: (text.toList.flatMap showChar ++ ['"']))

/-- Quoted texts in braces, separated by commas. -/
def quotedSet (texts : List String) : String :=
  "\x7b" ++ ", ".intercalate (texts.map quoted) ++ "\x7d"

end RecordRelay.Text
