import MiniRisc.Json.Token

/-!
# Grammar of JSON values

A value is a token without parts, or a list or an object whose parts are values between commas.
An object with a name that is no text of whole characters is `other`, because no reader can tell
its members apart.
-/

namespace MiniRisc.Json

/-- The text of a token that is one. -/
def ofText : Option String → Json
  | some value => text value
  | none => other

/-- An object, unless one of its names is not readable. -/
def ofMembers (members : List (Option String × Json)) : Json :=
  match members.mapM fun member => member.1.map fun name => (name, member.2) with
  | some members => object members
  | none => other

mutual

/-- The value at the start of a row of tokens, and the tokens after it. -/
def valueFor (fuel : Nat) (tokens : List Token) : Option (Json × List Token) :=
  match fuel with
  | 0 => none
  | fuel + 1 =>
    match tokens with
    | .atom value :: rest => some (value, rest)
    | .text value :: rest => some (ofText value, rest)
    | .openList :: .closeList :: rest => some (list [], rest)
    | .openList :: rest => (itemsFor fuel rest).map fun (items, rest) => (list items, rest)
    | .openObject :: .closeObject :: rest => some (object [], rest)
    | .openObject :: rest =>
      (membersFor fuel rest).map fun (members, rest) => (ofMembers members, rest)
    | _ => none

/-- The values of a list up to its closing bracket. -/
def itemsFor (fuel : Nat) (tokens : List Token) : Option (List Json × List Token) :=
  match fuel with
  | 0 => none
  | fuel + 1 =>
    match valueFor fuel tokens with
    | some (item, .comma :: rest) =>
      (itemsFor fuel rest).map fun (items, rest) => (item :: items, rest)
    | some (item, .closeList :: rest) => some ([item], rest)
    | _ => none

/-- The members of an object up to its closing brace. -/
def membersFor (fuel : Nat) (tokens : List Token) :
    Option (List (Option String × Json) × List Token) :=
  match fuel with
  | 0 => none
  | fuel + 1 =>
    match tokens with
    | .text name :: .colon :: rest =>
      match valueFor fuel rest with
      | some (value, .comma :: rest) =>
        (membersFor fuel rest).map fun (members, rest) => ((name, value) :: members, rest)
      | some (value, .closeObject :: rest) => some ([(name, value)], rest)
      | _ => none
    | _ => none

end

/-- The value that a text denotes. Every token takes at most two levels of nesting. -/
def parse? (source : String) : Option Json :=
  match tokens? source.toList with
  | none => none
  | some tokens =>
    match valueFor (2 * tokens.length + 1) tokens with
    | some (value, []) => some value
    | _ => none

end MiniRisc.Json
