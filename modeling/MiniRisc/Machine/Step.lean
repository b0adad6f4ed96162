import MiniRisc.Machine.Execute
import MiniRisc.Program

/-!
# Steps

A step fetches the word at the program counter and executes its instruction. The word of a branch
to itself on equal zeros and the word of `halt` stop the machine instead. A step that traps leaves
the program counter where it was.
-/

namespace MiniRisc

/-- How a program stops. -/
inductive Halt where
  /-- By the instruction `halt`. -/
  | explicit
  /-- By branching to itself. -/
  | virtual
deriving DecidableEq, Repr

/-- The name of the kind in data. -/
def Halt.title : Halt → String
  | explicit => "Explicit"
  | virtual => "Virtual"

/-- Both kinds of halts. -/
def Halt.all : List Halt := [.explicit, .virtual]

/-- What a step that does not trap comes to. -/
inductive Step where
  /-- The instruction was executed. -/
  | retired (instruction : Instruction)
  /-- The program has stopped. -/
  | halted (kind : Halt)
deriving DecidableEq, Repr

/-- Executes the instruction at the program counter. -/
def State.step (program : Program) (state : State) : State × Except Trap Step :=
  let pc := state.cpu.pc
  match program.fetch? pc with
  | none => (state, .error (.noInstruction pc))
  | some word =>
    if word = Word.virtualHalt then (state, .ok (.halted .virtual))
    else
      match Instruction.ofWord? word with
      | none => (state, .error (.unrecognized pc word))
      | some instruction =>
        if instruction.op = .halt then (state, .ok (.halted .explicit))
        else
          match (state.goTo (pc + 4)).execute instruction pc with
          | (after, some trap) => (after.goTo pc, .error trap)
          | (after, none) => (after.set Register.zero 0, .ok (.retired instruction))

end MiniRisc
