import MiniRisc.Program.Text
import MiniRisc.Tool.Arguments
import MiniRisc.Tool.Outcome
import MiniRisc.Tool.Path
import MiniRisc.Tool.Platform
import MiniRisc.Tool.Script
import MiniRisc.Word.Numeral

/-!
# Listings as a tool

Reads a program and shows its listing, as text or as JSON, or writes it to a file. The walk starts
at address zero and at the entries given, in ascending order and each once.
-/

namespace MiniRisc

/-- The form of a listing. -/
inductive ListingForm where
  /-- Lines of text. -/
  | text
  /-- A JSON object. -/
  | json
deriving DecidableEq, Repr

/-- What the lister is asked to do. -/
structure ListerOptions where
  /-- The path of the program. -/
  input : String
  /-- The form of the listing. -/
  form : ListingForm
  /-- Whether targets are named. -/
  labels : Bool
  /-- Whether the words are shown in binary. -/
  showBits : Bool
  /-- Where the walk starts besides address zero, as written by the user. -/
  entries : List String
  /-- How many instructions the walk visits at most. -/
  maxInstructions : Nat
  /-- The path of the listing. -/
  out : Option String
deriving DecidableEq, Repr

/-- The form with a given name. -/
def ListingForm.named? (name : String) : Option ListingForm :=
  if name = "text" then some .text else if name = "json" then some .json else none

/-- Loads a program from a file and names it after the file. -/
def NamedProgram.load (path : String) : Script (Except Failure NamedProgram) := do
  match ← Script.readText path with
  | .error error => return .error ⟨"reading " ++ path, [error.message]⟩
  | .ok text =>
    match Program.ofText text with
    | .error error => return .error ⟨"loading " ++ path, [error.message]⟩
    | .ok program => return .ok ⟨fileName path, program⟩

namespace ListerOptions

/-- The options that the lister knows. -/
def rules : List OptionRule :=
  [⟨"format", .value⟩, ⟨"labels", .flag⟩, ⟨"show-bits", .flag⟩, ⟨"entry", .values⟩,
   ⟨"max-instr", .value⟩, ⟨"out", .value⟩]

/-- Reads the arguments of the lister. -/
def read? (arguments : List String) : Option ListerOptions := do
  let sorted ← Arguments.read? rules arguments
  match sorted.positionals with
  | [input] =>
    return {
      input := ← readPath? input
      form := (← readOptional? ListingForm.named? (sorted.value? "format")).getD .text
      labels := sorted.has "labels"
      showBits := sorted.has "show-bits"
      entries := sorted.values "entry"
      maxInstructions := (← readOptional? readCount? (sorted.value? "max-instr")).getD 100000
      out := ← readOptional? readPath? (sorted.value? "out") }
  | _ => none

/-- The addresses where the walk starts. -/
def startAddresses (options : ListerOptions) : Except Text.NumeralError (List Word) :=
  (options.entries.mapM Word.ofNumeral).map fun given =>
    sortedAddresses (0 :: given).eraseDups

variable (platform : Platform)

/-- The text of a listing in the form that is asked for. -/
def render (options : ListerOptions) (listing : Listing) : String :=
  match options.form with
  | .text => listing.text options.showBits
  | .json => platform.listingText listing ++ "\n"

/-- Lists a program. -/
def script (options : ListerOptions) : Script Outcome := do
  match ← NamedProgram.load options.input with
  | .error failure => return .failed failure ""
  | .ok source =>
    match options.startAddresses with
    | .error error => return .failed ⟨error.message, []⟩ ""
    | .ok entries =>
      if platform.refusesRow source.program.words.size then return .stopped .product
      else
        let listing := Listing.ofProgram source entries options.maxInstructions options.labels
        match options.out with
        | none => return { output := options.render platform listing }
        | some path =>
          match ← Script.writeText path (options.render platform listing) with
          | .error error => return .failed ⟨error.message, []⟩ ""
          | .ok () => return {}

end ListerOptions

end MiniRisc
