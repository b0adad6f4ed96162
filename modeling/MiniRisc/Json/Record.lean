import MiniRisc.Json
import MiniRisc.Signed

/-!
# Reading records

A record is written as an object with its fields as members, or as a list of its fields in order.
Members with other names do not count, but a field may not stand there twice. A field that is
missing has no value; whether that is an error is for the reader of the record to say.

A number must be in the range of its field. A choice among names is written as the name, or as an
object with the name and `null`.
-/

namespace MiniRisc.Json

/-- The values of the named fields, in the order of the names. -/
def record? (names : List String) : Json → Option (List (Option Json))
  | object members =>
    if names.all fun name => (members.filter (·.1 == name)).length ≤ 1 then
      some (names.map fun name => List.lookup name members)
    else none
  | list items =>
    if items.length ≤ names.length then
      some ((List.range names.length).map fun place => items[place]?)
    else none
  | _ => none

/-- The number in an integer value of the given range. -/
def intBetween? (least greatest : Int) : Json → Option Int
  | int value => if least ≤ value ∧ value ≤ greatest then some value else none
  | _ => none

/-- A natural number that can be written with `width` bits. -/
def natural? (width : Nat) (json : Json) : Option Nat :=
  (json.intBetween? 0 (Int.ofNat (Nat.pow 2 width) - 1)).map Int.toNat

/-- A word as a natural number. -/
def word? (json : Json) : Option Word := (json.natural? 32).map (BitVec.ofNat 32)

/-- A byte as a natural number. -/
def byte? (json : Json) : Option Byte := (json.natural? 8).map (BitVec.ofNat 8)

/-- A word as an integer in two's complement. -/
def signedWord? (json : Json) : Option Word :=
  (json.intBetween? (-Signed.half 32) (Signed.half 32 - 1)).map (BitVec.ofInt 32)

/-- A list of words. -/
def words? : Json → Option (List Word)
  | list items => items.mapM word?
  | _ => none

/-- One of the given values by its name. -/
def choice? (values : List α) (name : α → String) : Json → Option α
  | text title => values.find? (name · == title)
  | object [(title, null)] => values.find? (name · == title)
  | _ => none

/-- A word as a natural number. -/
def ofWord (word : Word) : Json := int word.toNat

/-- A byte as a natural number. -/
def ofByte (byte : Byte) : Json := int byte.toNat

/-- A list of words. -/
def ofWords (words : List Word) : Json := list (words.map ofWord)

end MiniRisc.Json
