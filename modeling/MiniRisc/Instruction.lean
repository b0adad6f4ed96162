import MiniRisc.Operation
import MiniRisc.Register

/-!
# Instructions of words

A word stands for at most one instruction. The words of `rst` and `halt` and the opcode of `rvrs`
are recognised first; any other word is looked up by its opcodes and read in the format of the
operation found.
-/

namespace MiniRisc

/-- An instruction as it is read from a word. Fields that the format does not carry are zero. -/
structure Instruction where
  /-- What it does. -/
  op : Op
  /-- The layout that it was read in. -/
  format : Format
  /-- The word that it was read from. -/
  raw : Word
  /-- Destination register. -/
  rd : Byte := 0
  /-- First source register. -/
  rs1 : Byte := 0
  /-- Second source register. -/
  rs2 : Byte := 0
  /-- The immediate in two's complement. -/
  imm : Word := 0
deriving DecidableEq, Repr

/-- The word of `rst`. -/
def Word.reset : Word := 0x7F

/-- The word of `halt`. -/
def Word.halt : Word := 0xFFFFFFFF

/-- The word of `beq zero, zero, 0`, which ends a program by branching to itself. -/
def Word.virtualHalt : Word := 0x63

/-- The instruction that a word stands for. -/
def Instruction.ofWord? (word : Word) : Option Instruction :=
  if word = Word.reset then some { op := .rst, format := .R, raw := word }
  else if word = Word.halt then some { op := .halt, format := .R, raw := word }
  else
    let probe := Format.R.split word
    if probe.opcode = Op.rvrs.row.opcode then
      some { op := .rvrs, format := .R, raw := word, rd := probe.rd, rs1 := probe.rs1 }
    else (Op.ofOpcodes? probe.opcode probe.funct3 probe.funct7).map fun op =>
      let fields := op.format.split word
      { op, format := op.format, raw := word, rd := fields.rd, rs1 := fields.rs1,
        rs2 := fields.rs2, imm := BitVec.ofInt 32 fields.imm }

/-- An instruction remembers the word it was read from. -/
theorem Instruction.raw_of_ofWord? {word : Word} {instruction : Instruction}
    (h : Instruction.ofWord? word = some instruction) : instruction.raw = word := by
  unfold Instruction.ofWord? at h
  split at h
  · exact (Option.some.inj h) ▸ rfl
  · split at h
    · exact (Option.some.inj h) ▸ rfl
    · dsimp only at h
      split at h
      · exact (Option.some.inj h) ▸ rfl
      · obtain ⟨op, _, rfl⟩ := Option.map_eq_some_iff.1 h
        rfl

end MiniRisc
