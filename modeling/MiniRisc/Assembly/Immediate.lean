import MiniRisc.Signed
import MiniRisc.Text.Numeral

/-!
# Numbers in operands

A token is shaped like a number if it is a row of decimal digits, or `0x` and a row of hexadecimal
digits, after at most one sign. Such a token denotes an integer of any size. Integers outside 64
bits are kept as the nearest limit.
-/

namespace MiniRisc

/-- A number as an operand. -/
inductive Immediate where
  /-- An integer of 64 bits. -/
  | value (value : Int)
  /-- An integer beyond 64 bits, of which the limit that it passes is kept. -/
  | beyond (limit : Int)
deriving DecidableEq, Repr

namespace Immediate

/-- The smallest integer of 64 bits. -/
def least : Int := -Signed.half 64

/-- The largest integer of 64 bits. -/
def greatest : Int := Signed.half 64 - 1

/-- The natural number that an unsigned numeral of either radix denotes. -/
def magnitude? (text : List Char) : Option Nat :=
  let (radix, digits) := Text.radixAndDigits text
  Text.natural? radix digits

/-- The integer that a token denotes, if it is shaped like a number. -/
def integer? : List Char → Option Int
  | '-' :: rest => (magnitude? rest).map fun n => -(n : Int)
  | '+' :: rest => (magnitude? rest).map Int.ofNat
  | rest => (magnitude? rest).map Int.ofNat

/-- An integer within 64 bits as it is, any other as the limit that it passes. -/
def ofInt (n : Int) : Immediate :=
  if n < least then beyond least else if greatest < n then beyond greatest else value n

/-- The number that a token stands for, if it is shaped like one. -/
def ofToken? (token : String) : Option Immediate :=
  (integer? token.toList).map ofInt

end Immediate

end MiniRisc
