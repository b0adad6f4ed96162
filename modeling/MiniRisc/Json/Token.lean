import MiniRisc.Json
import MiniRisc.Text.Numeral

/-!
# Tokens of JSON text

JSON text is a row of tokens with blanks between them: brackets, braces, colons, commas, and the
values that have no parts. The blanks are the space, the tab, the carriage return and the newline.
Two values next to each other are two tokens; that they may not follow each other is a matter of
the grammar of values.
-/

namespace MiniRisc.Json

/-- A token of JSON text. -/
inductive Token where
  /-- An opening bracket. -/
  | openList
  /-- A closing bracket. -/
  | closeList
  /-- An opening brace. -/
  | openObject
  /-- A closing brace. -/
  | closeObject
  /-- A colon. -/
  | colon
  /-- A comma. -/
  | comma
  /-- A text; none if it holds half of a surrogate pair. -/
  | text (value : Option String)
  /-- Any other value without parts. -/
  | atom (value : Json)
deriving Repr

/-- Whether a character may stand between tokens. -/
def isBlank (c : Char) : Bool := c == ' ' || c == '\t' || c == '\r' || c == '\n'

/-- The character that a letter after a backslash stands for. -/
def escaped? : Char → Option Char
  | '"' => some '"'
  | '\\' => some '\\'
  | '/' => some '/'
  | 'b' => some '\x08'
  | 'f' => some '\x0c'
  | 'n' => some '\n'
  | 'r' => some '\r'
  | 't' => some '\t'
  | _ => none

/-- The code units of a text up to its closing quotation mark, and what follows the mark. A
character outside escapes is one unit, whatever its size. -/
def textUnits : List Char → Option (List Nat × List Char)
  | [] => none
  | '"' :: rest => some ([], rest)
  | '\\' :: 'u' :: a :: b :: c :: d :: rest => do
    let unit ← Text.natural? 16 [a, b, c, d]
    let (units, rest) ← textUnits rest
    return (unit :: units, rest)
  | '\\' :: letter :: rest => do
    let c ← escaped? letter
    let (units, rest) ← textUnits rest
    return (c.toNat :: units, rest)
  | c :: rest =>
    if c.toNat < 0x20 then none
    else do
      let (units, rest) ← textUnits rest
      return (c.toNat :: units, rest)

/-- The text of code units, with surrogate pairs joined; none if half of a pair stands alone. -/
def joinUnits : List Nat → Option (List Char)
  | [] => some []
  | unit :: rest =>
    if 0xD800 ≤ unit ∧ unit < 0xDC00 then
      match rest with
      | low :: rest =>
        if 0xDC00 ≤ low ∧ low < 0xE000 then
          (joinUnits rest).map
            (Char.ofNat (0x10000 + 0x400 * (unit - 0xD800) + (low - 0xDC00)) :: ·)
        else none
      | [] => none
    else if 0xDC00 ≤ unit ∧ unit < 0xE000 then none
    else (joinUnits rest).map (Char.ofNat unit :: ·)

/-- Takes the longest row of decimal digits, which must not be empty. -/
def digitRow? (text : List Char) : Option (List Char × List Char) :=
  match text.takeWhile Char.isDigit with
  | [] => none
  | digits => some (digits, text.dropWhile Char.isDigit)

/-- Drops the fraction of a number and tells whether there was one. -/
def fraction? : List Char → Option (Bool × List Char)
  | '.' :: rest => (digitRow? rest).map fun (_, rest) => (true, rest)
  | rest => some (false, rest)

/-- Drops the exponent of a number and tells whether there was one. -/
def exponent? : List Char → Option (Bool × List Char)
  | c :: rest =>
    if c = 'e' ∨ c = 'E' then
      let unsigned := match rest with
        | '+' :: rest => rest
        | '-' :: rest => rest
        | rest => rest
      (digitRow? unsigned).map fun (_, rest) => (true, rest)
    else some (false, c :: rest)
  | [] => some (false, [])

/-- A number without its sign. A zero does not lead other digits. -/
def number? (negative : Bool) (text : List Char) : Option (Json × List Char) := do
  let (digits, rest) ← digitRow? text
  if digits.length > 1 ∧ digits.head? = some '0' then none
  else
    let (fractional, rest) ← fraction? rest
    let (scaled, rest) ← exponent? rest
    let magnitude ← Text.natural? 10 digits
    let value :=
      if fractional || scaled || (negative && magnitude == 0) then other
      else if negative then int (-(magnitude : Int))
      else int magnitude
    return (value, rest)

/-- The first token of a text that starts with none of the blanks, and what follows it. -/
def token? : List Char → Option (Token × List Char)
  | '[' :: rest => some (.openList, rest)
  | ']' :: rest => some (.closeList, rest)
  | '\x7b' :: rest => some (.openObject, rest)
  | '\x7d' :: rest => some (.closeObject, rest)
  | ':' :: rest => some (.colon, rest)
  | ',' :: rest => some (.comma, rest)
  | '"' :: rest => (textUnits rest).map fun (units, rest) =>
    (.text ((joinUnits units).map String.ofList), rest)
  | 'n' :: 'u' :: 'l' :: 'l' :: rest => some (.atom null, rest)
  | 't' :: 'r' :: 'u' :: 'e' :: rest => some (.atom (bool true), rest)
  | 'f' :: 'a' :: 'l' :: 's' :: 'e' :: rest => some (.atom (bool false), rest)
  | '-' :: rest => (number? true rest).map fun (value, rest) => (.atom value, rest)
  | digits => (number? false digits).map fun (value, rest) => (.atom value, rest)

/-- At most `fuel` tokens of a text. -/
def tokensFor (fuel : Nat) (text : List Char) : Option (List Token) :=
  match fuel, text.dropWhile isBlank with
  | _, [] => some []
  | 0, _ => none
  | fuel + 1, start => do
    let (token, rest) ← token? start
    let tokens ← tokensFor fuel rest
    return token :: tokens

/-- The tokens of a text; every token has at least one character. -/
def tokens? (text : List Char) : Option (List Token) := tokensFor text.length text

end MiniRisc.Json
