import MiniRisc.Text.Blank
import MiniRisc.Text.Numeral
import MiniRisc.Word

/-!
# Addresses given by the user

An address is given in decimal, or in hexadecimal after `0x`, with blanks around it ignored. It
has no sign but perhaps a plus, and must fit in a word.
-/

namespace MiniRisc

/-- The word that a numeral denotes. -/
def Word.ofNumeral (text : String) : Except Text.NumeralError Word :=
  let (radix, digits) := Text.radixAndDigits (Text.trim text.toList)
  (Text.readNatural radix (Nat.pow 2 32) digits).map (BitVec.ofNat 32)

end MiniRisc
