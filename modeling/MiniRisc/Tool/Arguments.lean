import MiniRisc.Text.Numeral

/-!
# Command line arguments

Arguments are positional or options. An option starts with two dashes; its value follows after an
equals sign or as the next argument, which then may not start with a dash. Two dashes alone end
the options. There are no abbreviated and no one-letter options. An option may be given once,
unless it collects values.

Arguments that do not keep to this are refused without further distinction.
-/

namespace MiniRisc

/-- What an option takes. -/
inductive OptionKind where
  /-- No value. -/
  | flag
  /-- One value. -/
  | value
  /-- A value each time it is given. -/
  | values
deriving DecidableEq, Repr

/-- An option that a tool knows. -/
structure OptionRule where
  /-- Its name without the dashes. -/
  name : String
  /-- What it takes. -/
  kind : OptionKind
deriving DecidableEq, Repr

/-- Arguments sorted out. -/
structure Arguments where
  /-- The positional arguments in order. -/
  positionals : List String := []
  /-- The options in order, flags with an empty value. -/
  options : List (String × String) := []
deriving DecidableEq, Repr

/-- An argument by its shape. -/
inductive ArgumentShape where
  /-- The end of the options. -/
  | terminator
  /-- An option, perhaps with its value. -/
  | long (name : String) (value : Option String)
  /-- A dash with something else behind it. -/
  | short
  /-- Anything else. -/
  | plain
deriving DecidableEq, Repr

/-- The shape of an argument. -/
def ArgumentShape.ofChars : List Char → ArgumentShape
  | ['-', '-'] => terminator
  | '-' :: '-' :: rest =>
    let name := String.ofList (rest.takeWhile (· != '='))
    match rest.dropWhile (· != '=') with
    | [] => long name none
    | _ :: value => long name (some (String.ofList value))
  | '-' :: _ :: _ => short
  | _ => plain

namespace Arguments

/-- The arguments with one more positional in front. -/
def addPositional (positional : String) (arguments : Arguments) : Arguments :=
  { arguments with positionals := positional :: arguments.positionals }

/-- The arguments with one more option in front. -/
def addOption (name value : String) (arguments : Arguments) : Arguments :=
  { arguments with options := (name, value) :: arguments.options }

/-- Sorts arguments out by the rules of a tool. -/
def sort? (rules : List OptionRule) : List String → Option Arguments
  | [] => some {}
  | argument :: rest =>
    match ArgumentShape.ofChars argument.toList with
    | .terminator => some { positionals := rest }
    | .short => none
    | .plain => (sort? rules rest).map (addPositional argument)
    | .long name value =>
      match rules.find? (·.name == name), value with
      | none, _ => none
      | some ⟨_, .flag⟩, none => (sort? rules rest).map (addOption name "")
      | some ⟨_, .flag⟩, some _ => none
      | some _, some value => (sort? rules rest).map (addOption name value)
      | some _, none =>
        match rest with
        | [] => none
        | value :: rest =>
          if ArgumentShape.ofChars value.toList = .plain then
            (sort? rules rest).map (addOption name value)
          else none

/-- The values given to an option, in order. -/
def values (arguments : Arguments) (name : String) : List String :=
  (arguments.options.filter (·.1 == name)).map (·.2)

/-- The value given to an option. -/
def value? (arguments : Arguments) (name : String) : Option String :=
  (arguments.values name).head?

/-- Whether an option is given. -/
def has (arguments : Arguments) (name : String) : Bool := (arguments.value? name).isSome

/-- The arguments sorted out, if no option is given more often than it may be. -/
def read? (rules : List OptionRule) (arguments : List String) : Option Arguments :=
  match sort? rules arguments with
  | none => none
  | some sorted =>
    if rules.all fun rule => rule.kind = .values || (sorted.values rule.name).length ≤ 1 then
      some sorted
    else none

end Arguments

/-- A path as an argument, which is not empty. -/
def readPath? (text : String) : Option String := if text.isEmpty then none else some text

/-- A count as an argument, a natural number of 64 bits. -/
def readCount? (text : String) : Option Nat :=
  (Text.readNatural 10 (Nat.pow 2 64) text.toList).toOption

/-- Reads the value of an option that may be missing; none if it is there and not readable. -/
def readOptional? (read : String → Option α) : Option String → Option (Option α)
  | none => some none
  | some text => (read text).map some

end MiniRisc
