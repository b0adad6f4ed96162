import MiniRisc.Machine.State

/-!
# Execution of one instruction

An instruction is executed in a state whose program counter has already moved on to the next
address; jumps and taken branches set it again. Operands are read before anything is written.
Arithmetic is modulo the word size. A load or store that memory refuses changes nothing.
-/

namespace MiniRisc

/-- Why the machine cannot go on. -/
inductive Trap where
  /-- The program counter addresses no instruction. -/
  | noInstruction (pc : Word)
  /-- The word stands for no instruction. -/
  | unrecognized (pc word : Word)
  /-- Memory refuses a load or store. -/
  | memory (address : Word) (fault : MemoryFault)
  /-- The budget of steps is used up. -/
  | stepLimit (limit : Nat)
deriving DecidableEq, Repr

/-- The trap in words. -/
def Trap.message : Trap → String
  | noInstruction pc => "program counter " ++ pc.hex ++ " addresses no instruction"
  | unrecognized pc word => "unrecognized instruction " ++ word.hex ++ " at " ++ pc.hex
  | memory address fault =>
    "memory access out of range at " ++ address.hex ++ ": " ++ fault.message
  | stepLimit limit => s!"step limit of {limit} instructions reached"

/-- A truth value as a word. -/
def Word.ofBool (holds : Bool) : Word := if holds then 1 else 0

/-- Whether a conditional branch on two values is taken. -/
def Op.taken (op : Op) (a b : Word) : Bool :=
  match op with
  | .beq => a == b
  | .bne => a != b
  | .blt => a.slt b
  | .bge => !a.slt b
  | .bltu => a.ult b
  | .bgeu => !a.ult b
  | _ => false

namespace State

/-- Writes the destination of an instruction that cannot fail. -/
def retire (state : State) (register : Byte) (value : Word) : State × Option Trap :=
  (state.set register value, none)

/-- Loads a word into a register. -/
def load (state : State) (register : Byte) (address : Word) : State × Option Trap :=
  match state.data.read address with
  | .ok value => state.retire register value
  | .error fault => (state, some (.memory address fault))

/-- Stores a word. -/
def store (state : State) (address value : Word) : State × Option Trap :=
  match state.data.write address value with
  | .ok data => ({ state with data }, none)
  | .error fault => (state, some (.memory address fault))

/-- Executes an instruction fetched from the address `here`. -/
def execute (state : State) (instruction : Instruction) (here : Word) : State × Option Trap :=
  let a := state.cpu.get instruction.rs1
  let b := state.cpu.get instruction.rs2
  let imm := instruction.imm
  let rd := instruction.rd
  match instruction.op with
  | .add => state.retire rd (a + b)
  | .sub => state.retire rd (a - b)
  | .sll => state.retire rd (a <<< (b.toNat % 32))
  | .slt => state.retire rd (Word.ofBool (a.slt b))
  | .sltu => state.retire rd (Word.ofBool (a.ult b))
  | .xor => state.retire rd (a ^^^ b)
  | .srl => state.retire rd (a >>> (b.toNat % 32))
  | .or => state.retire rd (a ||| b)
  | .and => state.retire rd (a &&& b)
  | .mul => state.retire rd (a * b)
  | .lw => state.load rd (a + imm)
  | .addi => state.retire rd (a + imm)
  -- the field of twelve bits is compared as a natural number
  | .sltiu => state.retire rd (Word.ofBool (a.ult (imm &&& 0xFFF)))
  | .jalr => ((state.set rd (here + 4)).goTo (a + imm), none)
  | .sw => state.store (a + imm) b
  | .beq | .bne | .blt | .bge | .bltu | .bgeu =>
    (if instruction.op.taken a b then state.goTo (here + imm) else state, none)
  | .lui => state.retire rd imm
  | .auipc => state.retire rd (here + imm)
  | .jal => ((state.set rd (here + 4)).goTo (here + imm), none)
  | .rst => ({ state with cpu := state.cpu.reset }, none)
  | .rvrs => state.retire rd a.reverse
  -- stepping stops before a halt is executed
  | .halt => (state.goTo here, none)

/-- An instruction that traps changes nothing. -/
theorem execute_of_trap {state after : State} {instruction : Instruction} {here : Word}
    {trap : Trap} (h : state.execute instruction here = (after, some trap)) : after = state := by
  revert h
  simp only [execute, retire, load, store]
  cases instruction.op <;> simp only [Prod.mk.injEq, reduceCtorEq, and_false, false_implies]
  all_goals
    split
    · simp
    · simp only [Prod.mk.injEq]
      exact fun h => h.1.symm

end State

end MiniRisc
