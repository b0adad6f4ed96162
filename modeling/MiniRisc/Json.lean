/-!
# JSON values

The data of a machine is exchanged as JSON. Of all well-formed values, some can stand only where
nobody looks: numbers with a fraction or an exponent, negative zero, and texts that hold half of a
surrogate pair, also as the name of a member. They all become `other`, which no reader accepts.

A value is written in two ways, compact without any blank, or with every item on a line of its own
and two blanks for every level.
-/

namespace MiniRisc

/-- A JSON value. -/
inductive Json where
  /-- The value `null`. -/
  | null
  /-- A truth value. -/
  | bool (value : Bool)
  /-- A number without fraction and exponent. -/
  | int (value : Int)
  /-- A text. -/
  | text (value : String)
  /-- Values in order. -/
  | list (items : List Json)
  /-- Named values in the order in which they are written; names may repeat. -/
  | object (members : List (String × Json))
  /-- A well-formed value that no reader accepts. -/
  | other
deriving Repr

namespace Json

/-- A character as it stands between quotation marks. -/
def escapeChar (c : Char) : List Char :=
  if c = '"' then ['\\', '"']
  else if c = '\\' then ['\\', '\\']
  else if c = '\x08' then ['\\', 'b']
  else if c = '\x0c' then ['\\', 'f']
  else if c = '\n' then ['\\', 'n']
  else if c = '\r' then ['\\', 'r']
  else if c = '\t' then ['\\', 't']
  else if c.toNat < 0x20 then
    ['\\', 'u', '0', '0', (c.toNat / 16).digitChar, (c.toNat % 16).digitChar]
  else [c]

/-- A text between quotation marks. -/
def quote (text : String) : String :=
  String.ofList ('"' :: text.toList.flatMap escapeChar ++ ['"'])

mutual

/-- A value without blanks. -/
def compact : Json → String
  | null | other => "null"
  | bool value => if value then "true" else "false"
  | int value => toString value
  | text value => quote value
  | list items => "[" ++ String.intercalate "," (compactItems items) ++ "]"
  | object members => "\x7b" ++ String.intercalate "," (compactMembers members) ++ "\x7d"

/-- Each of the values of a list. -/
def compactItems : List Json → List String
  | [] => []
  | item :: rest => compact item :: compactItems rest

/-- Each of the members of an object. -/
def compactMembers : List (String × Json) → List String
  | [] => []
  | (name, value) :: rest => (quote name ++ ":" ++ compact value) :: compactMembers rest

end

/-- Puts each item on a line of its own between brackets; `level` counts the levels outside. -/
def bracketed (level : Nat) (opening closing : String) (items : List String) : String :=
  match items with
  | [] => opening ++ closing
  | items =>
    let indent (level : Nat) : String := "\n" ++ String.ofList (List.replicate (2 * level) ' ')
    opening ++ indent (level + 1) ++ String.intercalate ("," ++ indent (level + 1)) items ++
      indent level ++ closing

mutual

/-- A value with every item on a line of its own, at a level of indentation. -/
def prettyAt (level : Nat) : Json → String
  | list items => bracketed level "[" "]" (prettyItems (level + 1) items)
  | object members => bracketed level "\x7b" "\x7d" (prettyMembers (level + 1) members)
  | null | other => "null"
  | bool value => if value then "true" else "false"
  | int value => toString value
  | text value => quote value

/-- Each of the values of a list. -/
def prettyItems (level : Nat) : List Json → List String
  | [] => []
  | item :: rest => prettyAt level item :: prettyItems level rest

/-- Each of the members of an object. -/
def prettyMembers (level : Nat) : List (String × Json) → List String
  | [] => []
  | (name, value) :: rest =>
    (quote name ++ ": " ++ prettyAt level value) :: prettyMembers level rest

end

/-- A value with every item on a line of its own. -/
def pretty (json : Json) : String := json.prettyAt 0

end Json

end MiniRisc
