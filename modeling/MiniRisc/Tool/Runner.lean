import MiniRisc.Machine
import MiniRisc.Machine.Trace
import MiniRisc.Program.Text
import MiniRisc.Tool.Arguments
import MiniRisc.Tool.Outcome
import MiniRisc.Tool.Platform
import MiniRisc.Tool.Script

/-!
# The machine as a tool

Reads a set-up and a program, runs the program and writes the trace. The state of the processor at
the end is written on demand, also if the run traps; the trace is not written then. A program that
never ends is run forever, and nothing is written.
-/

namespace MiniRisc

/-- What the runner is asked to do. -/
structure RunnerOptions where
  /-- The path of the program. -/
  input : String
  /-- The path of the trace. -/
  output : String
  /-- The path of the set-up. -/
  config : Option String
  /-- The limit on the steps. -/
  maxSteps : Option Nat
  /-- The path of the final state. -/
  dumpState : Option String
deriving DecidableEq, Repr

/-- A trap with what lies below it. -/
def Trap.messages : Trap → List String
  | memory address fault => [(memory address fault).message, fault.message]
  | trap => [trap.message]

/-- Why a run that ends does not end as it should. -/
def Run.failure? (run : Run) : Option Failure :=
  match run.ending with
  | .trapped trap => some ⟨s!"after {run.machine.steps} steps", trap.messages⟩
  | .halted _ | .endless => none

/-- The trace of a run. -/
def Run.trace (run : Run) : String :=
  traceText (run.visits.toList.map Visit.after) run.machine.state.data

namespace RunnerOptions

/-- The options that the runner knows. -/
def rules : List OptionRule :=
  [⟨"config", .value⟩, ⟨"max-steps", .value⟩, ⟨"dump-state", .value⟩]

/-- Reads the arguments of the runner. -/
def read? (arguments : List String) : Option RunnerOptions := do
  let sorted ← Arguments.read? rules arguments
  match sorted.positionals with
  | [input, output] =>
    return {
      input := ← readPath? input
      output := ← readPath? output
      config := ← readOptional? readPath? (sorted.value? "config")
      maxSteps := ← readOptional? readCount? (sorted.value? "max-steps")
      dumpState := ← readOptional? readPath? (sorted.value? "dump-state") }
  | _ => none

variable (platform : Platform)

/-- Reads the set-up, which is the standard one if no path is given. -/
def readConfig : Option String → Script (Except Failure Config)
  | none => return .ok {}
  | some path => do
    match ← Script.readText path with
    | .error error => return .error ⟨"reading " ++ path, [error.message]⟩
    | .ok text =>
      match platform.config? text with
      | none => return .error ⟨"parsing " ++ path, []⟩
      | some config => return .ok config

/-- Reads the program. -/
def readProgram (path : String) : Script (Except Failure Program) := do
  match ← Script.readText path with
  | .error error => return .error ⟨"reading " ++ path, [error.message]⟩
  | .ok text => return (Program.ofText text).mapError fun error => ⟨error.message, []⟩

/-- Runs a machine to its end, if it has one. -/
def await (machine : Machine) : Script Run :=
  let run := machine.run
  match run.ending with
  | .endless => .endless
  | _ => return run

/-- Writes the state of the processor, if a path for it is given. -/
def writeState (cpu : Cpu) : Option String → Script (Except Failure Unit)
  | none => return .ok ()
  | some path => do
    return (← Script.writeText path (platform.stateText cpu)).mapError fun error =>
      ⟨error.message, []⟩

/-- Writes the trace of a run that ended as it should. -/
def writeTrace (run : Run) (path : String) : Script Outcome :=
  match run.failure? with
  | some failure => return .failed failure ""
  | none =>
    if platform.refusesRow run.machine.state.data.words.size then return .stopped .product
    else do
      match ← Script.writeText path run.trace with
      | .error error => return .failed ⟨"writing " ++ path, [error.message]⟩ ""
      | .ok () => return {}

/-- Writes what is asked for of a run. -/
def report (options : RunnerOptions) (run : Run) : Script Outcome := do
  match ← writeState platform run.machine.state.cpu options.dumpState with
  | .error failure => return .failed failure ""
  | .ok () => writeTrace platform run options.output

/-- The machine with the limit that is asked for. -/
def machine? (options : RunnerOptions) (program : Program) (config : Config) : Option Machine :=
  (Machine.start? program config).map fun machine =>
    match options.maxSteps with
    | none => machine
    | some limit => machine.withLimit limit

/-- Runs a program. -/
def script (options : RunnerOptions) : Script Outcome := do
  match ← readConfig platform options.config with
  | .error failure => return .failed failure ""
  | .ok config =>
    match ← readProgram options.input with
    | .error failure => return .failed failure ""
    | .ok program =>
      match options.machine? program config with
      | none => return .stopped .capacity
      | some machine =>
        options.report platform (← await machine)

end RunnerOptions

end MiniRisc
