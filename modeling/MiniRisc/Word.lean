/-!
# Machine words and their numerals

Instructions, addresses and register contents are 32-bit words. Three written forms occur in
every text of this library: all thirty-two binary digits, all eight hexadecimal digits, and the
short hexadecimal form of listings, which drops up to four leading zeros. The first two have a
fixed width, so neighbouring numerals never run together.
-/

namespace MiniRisc

/-- An instruction, an address or the content of a register. -/
abbrev Word := BitVec 32

/-- A field of an instruction, kept in eight bits whatever its width in the word. -/
abbrev Byte := BitVec 8

namespace Word

/-- The number of words in a row from address zero that have an address each. -/
def rowLimit : Nat := Nat.pow 2 30

/-- All thirty-two binary digits, most significant first. -/
def binaryDigits (word : Word) : List Char :=
  (List.range 32).map fun place => if word.getMsbD place then '1' else '0'

/-- All eight hexadecimal digits in lower case, most significant first. -/
def hexDigits (word : Word) : List Char :=
  (List.range 8).map fun place => (word.extractLsb' (4 * (7 - place)) 4).toNat.digitChar

/-- The hexadecimal digits less those of the leading four that are leading zeros, so at least
four are left and none of a larger number is lost. -/
def shortHexDigits (word : Word) : List Char :=
  (word.hexDigits.take 4).dropWhile (· == '0') ++ word.hexDigits.drop 4

/-- The binary numeral without a mark. -/
def binary (word : Word) : String := String.ofList word.binaryDigits

/-- The full hexadecimal numeral with its mark, as in `0x0000001c`. -/
def hex (word : Word) : String := "0x" ++ String.ofList word.hexDigits

/-- The short hexadecimal numeral with its mark, as in `0x001c`. -/
def shortHex (word : Word) : String := "0x" ++ String.ofList word.shortHexDigits

/-- The unsigned decimal numeral. -/
def decimal (word : Word) : String := toString word.toNat

/-- The decimal numeral of the two's-complement reading. -/
def signedDecimal (word : Word) : String := toString word.toInt

/-- A binary numeral has one digit for every bit. -/
theorem length_binaryDigits (word : Word) : word.binaryDigits.length = 32 := by
  simp [binaryDigits]

/-- A full hexadecimal numeral has one digit for every four bits. -/
theorem length_hexDigits (word : Word) : word.hexDigits.length = 8 := by
  simp [hexDigits]

end Word

end MiniRisc
