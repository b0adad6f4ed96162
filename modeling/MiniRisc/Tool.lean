import MiniRisc.Tool.Assembler
import MiniRisc.Tool.Lister
import MiniRisc.Tool.Runner

/-!
# The tools

Three tools share one command line: the assembler, the runner and the lister. Arguments that a
tool cannot read give no script. How arguments are read does not matter to the tools, so they
can be given other readers, and another platform.
-/

namespace MiniRisc

/-- A tool. -/
inductive Tool where
  /-- Source text to words. -/
  | assembler
  /-- Words to a trace. -/
  | runner
  /-- Words to a listing. -/
  | lister
deriving DecidableEq, Repr

/-- How the tools read their arguments. -/
structure ArgumentReaders where
  /-- The arguments of the assembler. -/
  assembler? : List String → Option AssemblerOptions
  /-- The arguments of the runner. -/
  runner? : List String → Option RunnerOptions
  /-- The arguments of the lister. -/
  lister? : List String → Option ListerOptions

/-- The readers of this library. -/
def ArgumentReaders.standard : ArgumentReaders where
  assembler? := AssemblerOptions.read?
  runner? := RunnerOptions.read?
  lister? := ListerOptions.read?

namespace Tool

/-- The tool with a given name. -/
def named? : String → Option Tool
  | "asm" => some assembler
  | "run" => some runner
  | "disasm" => some lister
  | _ => none

/-- What a tool does with its arguments, if the readers can read them. -/
def scriptOn? (tool : Tool) (readers : ArgumentReaders) (platform : Platform)
    (arguments : List String) : Option (Script Outcome) :=
  match tool with
  | assembler => (readers.assembler? arguments).map AssemblerOptions.script
  | runner => (readers.runner? arguments).map (RunnerOptions.script platform)
  | lister => (readers.lister? arguments).map (ListerOptions.script platform)

/-- What a tool does with its arguments, if it can read them. -/
def script? (tool : Tool) (arguments : List String) : Option (Script Outcome) :=
  tool.scriptOn? .standard .standard arguments

/-- The exit code for arguments that cannot be read. -/
def usageCode : Nat := 2

end Tool

end MiniRisc
