import MiniRisc.DataMemory
import MiniRisc.Instruction

/-!
# Processor state

The processor has thirty-two registers and a program counter. At the start and after a reset all
registers are zero but the stack pointer, which holds the configured top of the stack. Register
zero is an ordinary register here; it is set back to zero after every instruction that completes.
-/

namespace MiniRisc

/-- How a machine is set up. -/
structure Config where
  /-- The value of the stack pointer after a reset. -/
  stackTop : Word := 256
  /-- The address of the first data word. -/
  dataBase : Word := 0x10000
  /-- The number of data words. -/
  dataWords : Nat := 32
deriving DecidableEq, Repr

/-- The registers of the processor. -/
structure Cpu where
  /-- The address of the next instruction. -/
  pc : Word
  /-- The general registers. -/
  registers : Vector Word 32
  /-- The set-up, for resets. -/
  config : Config
deriving DecidableEq, Repr

namespace Cpu

/-- The content of a register, of whose number the low five bits count. -/
def get (cpu : Cpu) (register : Byte) : Word := cpu.registers[Register.index register]

/-- The processor with another value in a register. -/
def set (cpu : Cpu) (register : Byte) (value : Word) : Cpu :=
  let place := Register.index register
  { cpu with registers := cpu.registers.set place.val value place.isLt }

/-- The processor with all registers as after a reset. -/
def reset (cpu : Cpu) : Cpu :=
  { cpu with registers := Vector.replicate 32 0 }.set Register.stackPointer
    cpu.config.stackTop

/-- The processor at the start of a program. -/
def start (config : Config) : Cpu :=
  { pc := 0, registers := Vector.replicate 32 0, config : Cpu }.reset

/-- A register holds what was put into it, and the others what they held. -/
theorem get_set (cpu : Cpu) (target register : Byte) (value : Word) :
    (cpu.set target value).get register =
      if Register.index register = Register.index target then value else cpu.get register := by
  simp only [get, set, Fin.getElem_fin, Vector.getElem_set]
  split
  · next same => rw [if_pos (Fin.ext same.symm)]
  · next other => rw [if_neg fun same => other (congrArg Fin.val same).symm]

end Cpu

/-- What an instruction can change. -/
structure State where
  /-- The registers. -/
  cpu : Cpu
  /-- The data memory. -/
  data : DataMemory
deriving DecidableEq, Repr

namespace State

/-- The state with another value in a register. -/
def set (state : State) (register : Byte) (value : Word) : State :=
  { state with cpu := state.cpu.set register value }

/-- The state with another program counter. -/
def goTo (state : State) (target : Word) : State :=
  { state with cpu := { state.cpu with pc := target } }

end State

end MiniRisc
