import MiniRisc.Text.Visible

/-!
# Quoted text

Text from a file is shown in error messages between quotation marks. Quotation marks and
backslashes in it get a backslash, four control characters have a letter of their own, every other
character that is not visible is written as its code point in hexadecimal.
-/

namespace MiniRisc.Text

/-- The code point of a character in hexadecimal, between braces. -/
def codePoint (c : Char) : List Char :=
  '\\' :: 'u' :: '\x7b' :: Nat.toDigits 16 c.toNat ++ ['\x7d']

/-- A character as it stands between quotation marks. -/
def quoteChar (c : Char) : List Char :=
  if c = '\x00' then ['\\', '0']
  else if c = '\t' then ['\\', 't']
  else if c = '\r' then ['\\', 'r']
  else if c = '\n' then ['\\', 'n']
  else if c = '"' ∨ c = '\\' then ['\\', c]
  else if isVisible c then [c]
  else codePoint c

/-- A text between quotation marks. -/
def quote (text : String) : String :=
  String.ofList ('"' :: text.toList.flatMap quoteChar ++ ['"'])

end MiniRisc.Text
