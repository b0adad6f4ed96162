/-!
# Numerals

The value of a row of ASCII digits in a radix up to sixteen. A bounded numeral may carry one plus
sign and must stay below a limit; it is read from left to right, and the first defect met is the
one reported.
-/

namespace MiniRisc.Text

/-- The value of an ASCII digit, if it is one in the radix. -/
def digit? (radix : Nat) (c : Char) : Option Nat :=
  let value :=
    if '0' ≤ c ∧ c ≤ '9' then some (c.toNat - '0'.toNat)
    else if 'a' ≤ c ∧ c ≤ 'z' then some (c.toNat - 'a'.toNat + 10)
    else if 'A' ≤ c ∧ c ≤ 'Z' then some (c.toNat - 'A'.toNat + 10)
    else none
  value.filter (· < radix)

/-- The number that digits denote, most significant first. -/
def ofDigits (radix : Nat) (digits : List Nat) : Nat :=
  digits.foldl (fun value digit => radix * value + digit) 0

/-- The number that a row of digits denotes; none if it is empty or holds anything else. -/
def natural? (radix : Nat) (text : List Char) : Option Nat :=
  if text.isEmpty then none else (text.mapM (digit? radix)).map (ofDigits radix)

/-- What is wrong with a bounded numeral. -/
inductive NumeralError where
  /-- There is nothing to read. -/
  | empty
  /-- A character is no digit. -/
  | invalidDigit
  /-- The number reaches the limit. -/
  | tooLarge
deriving DecidableEq, Repr

/-- The complaint in words. -/
def NumeralError.message : NumeralError → String
  | empty => "cannot parse integer from empty string"
  | invalidDigit => "invalid digit found in string"
  | tooLarge => "number too large to fit in target type"

/-- Reads digits after those that gave `value`, as long as the number stays below the limit. -/
def readDigits (radix limit value : Nat) : List Char → Except NumeralError Nat
  | [] => .ok value
  | c :: rest =>
    match digit? radix c with
    | none => .error .invalidDigit
    | some digit =>
      if radix * value + digit < limit then readDigits radix limit (radix * value + digit) rest
      else .error .tooLarge

/-- Reads a natural number below the limit, with at most one plus sign before its digits. -/
def readNatural (radix limit : Nat) : List Char → Except NumeralError Nat
  | [] => .error .empty
  | ['+'] => .error .invalidDigit
  | '+' :: digits => readDigits radix limit 0 digits
  | digits => readDigits radix limit 0 digits

/-- Cuts off the mark of a hexadecimal numeral and tells the radix of what follows. -/
def radixAndDigits : List Char → Nat × List Char
  | '0' :: 'x' :: digits => (16, digits)
  | '0' :: 'X' :: digits => (16, digits)
  | digits => (10, digits)

end MiniRisc.Text
