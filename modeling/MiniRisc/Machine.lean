import MiniRisc.Instruction.Text
import MiniRisc.Log
import MiniRisc.Machine.Step

/-!
# Machines and runs

A machine is a state with its program, a count of the steps taken and perhaps a limit on them.
Halting counts as a step, trapping does not. A run takes steps until one halts or traps, and keeps
what every step did.

A machine without a limit may run forever. Its state is one of finitely many, so a run that takes
as many steps as there are states has come back to a state it was in before and never ends. So the
loop is given fuel for as many steps, and uses it up only if the machine goes on forever.
-/

namespace MiniRisc

/-- A machine with its program. -/
structure Machine where
  /-- Registers and data memory. -/
  state : State
  /-- The instructions. -/
  program : Program
  /-- The number of steps after which the machine refuses to go on, in 64 bits where it comes from
  a user. -/
  limit : Option Nat := none
  /-- The number of steps taken, halting steps included. A counter of 64 bits would overflow after
  2⁶⁴ steps, which is left out. -/
  steps : Nat := 0
deriving DecidableEq, Repr

/-- One step of a run. -/
structure Visit where
  /-- The registers before the step. -/
  before : Cpu
  /-- What the step did. -/
  step : Step
  /-- The registers after the step. -/
  after : Cpu
  /-- The number of steps taken, this one included. -/
  count : Nat
deriving DecidableEq, Repr

/-- How a run ends. -/
inductive Ending where
  /-- The program stopped. -/
  | halted (kind : Halt)
  /-- A step trapped. -/
  | trapped (trap : Trap)
  /-- Not at all: a state came back. -/
  | endless
deriving DecidableEq, Repr

/-- A run of a machine. -/
structure Run where
  /-- The steps that did not trap, in order. -/
  visits : Array Visit
  /-- The machine at the end. -/
  machine : Machine
  /-- How the run ended. -/
  ending : Ending
deriving DecidableEq, Repr

/-- What is told about a step: the instruction with the values it read, or the halt. -/
def Visit.logEntry (visit : Visit) : LogEntry :=
  match visit.step with
  | .retired instruction =>
    { level := .debug
      message := visit.before.pc.shortHex ++ ": " ++
        (instruction.written (some visit.before.registers)).text
      fields := [("step", toString visit.count)] }
  | .halted kind =>
    { level := .info
      message := "halted"
      fields := [("pc", visit.before.pc.decimal), ("steps", toString visit.count),
        ("kind", kind.title)] }

namespace Machine

/-- A machine at the start of a program. -/
def start (program : Program) (config : Config) : Machine where
  state := ⟨Cpu.start config, DataMemory.zeros config.dataBase config.dataWords⟩
  program := program

/-- A machine at the start of a program, if there can be memory for its data. -/
def start? (program : Program) (config : Config) : Option Machine :=
  (DataMemory.allocate? config.dataBase config.dataWords).map fun data =>
    { state := ⟨Cpu.start config, data⟩, program }

/-- The machine with a limit on its steps. -/
def withLimit (machine : Machine) (limit : Nat) : Machine :=
  { machine with limit := some limit }

/-- The limit, if it is reached. -/
def limitReached? (machine : Machine) : Option Nat :=
  machine.limit.filter (· ≤ machine.steps)

/-- Takes a step, unless the limit is reached. -/
def step (machine : Machine) : Machine × Except Trap Step :=
  match machine.limitReached? with
  | some limit => (machine, .error (.stepLimit limit))
  | none =>
    match machine.state.step machine.program with
    | (state, .error trap) => ({ machine with state }, .error trap)
    | (state, .ok step) => ({ machine with state, steps := machine.steps + 1 }, .ok step)

/-- Runs for at most `fuel` steps after the steps already kept. -/
def runFor (fuel : Nat) (machine : Machine) (visits : Array Visit) : Run :=
  match fuel with
  | 0 => ⟨visits, machine, .endless⟩
  | fuel + 1 =>
    match machine.step with
    | (after, .error trap) => ⟨visits, after, .trapped trap⟩
    | (after, .ok step) =>
      let visits := visits.push ⟨machine.state.cpu, step, after.state.cpu, after.steps⟩
      match step with
      | .halted kind => ⟨visits, after, .halted kind⟩
      | .retired _ => runFor fuel after visits

/-- The number of states that differ in the program counter, the registers and the data. -/
def stateCount (machine : Machine) : Nat :=
  Nat.pow 2 (32 * (33 + machine.state.data.words.size))

/-- A number of steps after which a run has ended or never will: the limit trap comes after the
steps that are left, and without a limit a state comes back. -/
def runBound (machine : Machine) : Nat :=
  match machine.limit with
  | some limit => limit - machine.steps + 1
  | none => machine.stateCount

/-- Takes steps until one halts or traps. -/
def run (machine : Machine) : Run := runFor machine.runBound machine #[]

/-- The next instruction with the current values of its registers, if there is one. -/
def upcoming? (machine : Machine) : Option Written := do
  let word ← machine.program.fetch? machine.state.cpu.pc
  let instruction ← Instruction.ofWord? word
  return instruction.written (some machine.state.cpu.registers)

end Machine

end MiniRisc
