import MiniRisc.Assembly
import MiniRisc.Tool.Arguments
import MiniRisc.Tool.Outcome
import MiniRisc.Tool.Script

/-!
# The assembler as a tool

Reads a source, assembles it and writes the words. Nothing is written if the source is wrong. On
demand the labels are shown with their addresses.
-/

namespace MiniRisc

/-- What the assembler is asked to do. -/
structure AssemblerOptions where
  /-- The path of the source. -/
  input : String
  /-- The path of the words. -/
  output : String
  /-- Whether the labels are shown. -/
  printLabels : Bool
deriving DecidableEq, Repr

/-- A label with its address, as a line. -/
def labelLine (label : String × Word) : String := label.2.shortHex ++ " " ++ label.1 ++ "\n"

namespace AssemblerOptions

/-- The options that the assembler knows. -/
def rules : List OptionRule := [⟨"print-labels", .flag⟩]

/-- Reads the arguments of the assembler. -/
def read? (arguments : List String) : Option AssemblerOptions := do
  let sorted ← Arguments.read? rules arguments
  match sorted.positionals with
  | [input, output] =>
    return { input := ← readPath? input, output := ← readPath? output,
             printLabels := sorted.has "print-labels" }
  | _ => none

/-- Assembles. -/
def script (options : AssemblerOptions) : Script Outcome := do
  match ← Script.readText options.input with
  | .error error => return .failed ⟨"reading " ++ options.input, [error.message]⟩ ""
  | .ok source =>
    match Assembly.ofSource source with
    | .error error => return { code := 1, errors := error.diagnostic ++ "\n" }
    | .ok assembly =>
      let shown :=
        if options.printLabels then String.join (assembly.labels.sorted.map labelLine) else ""
      match ← Script.writeText options.output assembly.text with
      | .error error => return .failed ⟨"writing " ++ options.output, [error.message]⟩ shown
      | .ok () => return { errors := shown }

end AssemblerOptions

end MiniRisc
