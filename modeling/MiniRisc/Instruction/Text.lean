import MiniRisc.Instruction

/-!
# Instructions in words

The text of an instruction is its mnemonic and its operands in the order of its slots. An offset
before a base register is written `20(s1)`. When a register file is given, each register name is
followed by its number and its value, read as unsigned where the operation does so and in two's
complement elsewhere.
-/

namespace MiniRisc

/-- How the bits of an operand are read. -/
inductive Reading where
  /-- As two's complement. -/
  | signed
  /-- As a natural number. -/
  | unsigned
deriving DecidableEq, Repr

/-- A register as an operand. -/
structure RegisterOperand where
  /-- Its number. -/
  register : Byte
  /-- How its value is shown. -/
  reading : Reading
deriving DecidableEq, Repr

/-- An operand of an instruction. -/
inductive Operand where
  /-- The content of a register. -/
  | register (source : RegisterOperand)
  /-- A number. -/
  | immediate (value : Word)
  /-- The memory word at an offset from a base register. -/
  | memory (offset : Word) (base : RegisterOperand)
deriving DecidableEq, Repr

/-- An instruction as it is written. -/
structure Written where
  /-- The name of the operation. -/
  mnemonic : String
  /-- The operands in written order. -/
  operands : List String
deriving DecidableEq, Repr

/-- The numeral of a register's value in a given reading. -/
def Reading.numeral : Reading → Word → String
  | signed, value => value.signedDecimal
  | unsigned, value => value.decimal

/-- The name of a register operand, with number and value when the registers are known. -/
def RegisterOperand.text (operand : RegisterOperand) (registers : Option (Vector Word 32)) :
    String :=
  let name := Register.name operand.register
  match registers with
  | none => name
  | some registers =>
    let place := Register.index operand.register
    let value := operand.reading.numeral registers[place]
    name ++ "(x" ++ toString place.val ++ ": " ++ value ++ ")"

/-- An operand as it is written. -/
def Operand.text (operand : Operand) (registers : Option (Vector Word 32)) : String :=
  match operand with
  | register source => source.text registers
  | immediate value => value.signedDecimal
  | memory offset base => offset.signedDecimal ++ "(" ++ base.text registers ++ ")"

/-- Mnemonic and operands on one line. -/
def Written.text (written : Written) : String :=
  match written.operands with
  | [] => written.mnemonic
  | operands => written.mnemonic ++ " " ++ String.intercalate ", " operands

/-- How an operation reads the register of a slot: comparisons of naturals read both as unsigned,
shifts only the amount. -/
def Op.reading (op : Op) (slot : Slot) : Reading :=
  match op, slot with
  | .sltu, _ | .bltu, _ | .bgeu, _ => .unsigned
  | .sll, .rs2 | .srl, .rs2 => .unsigned
  | _, _ => .signed

namespace Instruction

/-- The register operand in a slot; the slot of the immediate holds none and gives `zero`. -/
def registerAt (instruction : Instruction) (slot : Slot) : RegisterOperand :=
  let register := match slot with
    | .rd => instruction.rd
    | .rs1 => instruction.rs1
    | .rs2 => instruction.rs2
    | .imm => Register.zero
  ⟨register, instruction.op.reading slot⟩

/-- The operands that fill the given slots; an immediate before the first source register is the
offset of a memory operand. -/
def operandsIn (instruction : Instruction) : List Slot → List Operand
  | [] => []
  | .imm :: .rs1 :: slots =>
    .memory instruction.imm (instruction.registerAt .rs1) :: instruction.operandsIn slots
  | .imm :: slots => .immediate instruction.imm :: instruction.operandsIn slots
  | slot :: slots => .register (instruction.registerAt slot) :: instruction.operandsIn slots

/-- The operands in written order. -/
def operands (instruction : Instruction) : List Operand :=
  instruction.operandsIn (instruction.op.slotsIn instruction.format)

/-- The written form, with the values of registers when they are known. -/
def written (instruction : Instruction) (registers : Option (Vector Word 32)) :
    Written :=
  ⟨instruction.op.mnemonic, instruction.operands.map (·.text registers)⟩

/-- The written form on one line, without values. -/
def text (instruction : Instruction) : String := (instruction.written none).text

/-- Values change neither the mnemonic nor the number of operands. -/
theorem length_written (instruction : Instruction) (registers : Option (Vector Word 32)) :
    (instruction.written registers).operands.length = instruction.operands.length := by
  simp [written]

end Instruction

/-- A word that stands for no instruction, as a directive. -/
def Word.directive (word : Word) : String := ".word " ++ word.hex

/-- A word as an instruction, or as a directive if it stands for none. -/
def Word.written (word : Word) : String :=
  match Instruction.ofWord? word with
  | some instruction => instruction.text
  | none => word.directive

end MiniRisc
