import MiniRisc.Layout

/-!
# Operations and their encodings

Every operation has one row: its mnemonic, its format and the opcodes that select it. Twenty-four
operations are regular, which means that the opcodes of a word select them; `rst`, `halt` and
`rvrs` are recognised before the opcodes are looked up. The order of `regular` is the order in
which a look-up tries the rows; no two rows answer to the same word.

An operation is written with its mnemonic and the operands of its slots, in the order given here.
-/

namespace MiniRisc

/-- What an instruction does. -/
inductive Op where
  | add | sub | sll | slt | sltu | xor | srl | or | and | mul
  | lw | addi | sltiu | jalr
  | sw
  | beq | bne | blt | bge | bltu | bgeu
  | lui | auipc
  | jal
  /-- Sets every register to its value at the start. -/
  | rst
  /-- Stops the machine. -/
  | halt
  /-- Reverses the order of the bits of a register. -/
  | rvrs
deriving DecidableEq, Repr

/-- How an operation is written and encoded. -/
structure OpRow where
  /-- The name in source text. -/
  mnemonic : String
  /-- The layout of its words. -/
  format : Format
  /-- The secondary opcode of three bits. -/
  funct3 : Byte
  /-- The secondary opcode of seven bits. -/
  funct7 : Byte
  /-- The primary opcode. -/
  opcode : Byte
deriving DecidableEq, Repr

/-- One place of a written instruction that an operand fills. -/
inductive Slot where
  /-- The destination register. -/
  | rd
  /-- The first source register. -/
  | rs1
  /-- The second source register. -/
  | rs2
  /-- The immediate, or a label that stands for an offset. -/
  | imm
deriving DecidableEq, Repr

/-- The operands of a format in the order in which they are written. -/
def Format.slots : Format → List Slot
  | .R => [.rd, .rs1, .rs2]
  | .I => [.rd, .rs1, .imm]
  | .S => [.rs2, .imm, .rs1]
  | .B => [.rs1, .rs2, .imm]
  | .U | .J => [.rd, .imm]

namespace Op

/-- The row of an operation. -/
def row : Op → OpRow
  | add => ⟨"add", .R, 0, 0, 0x33⟩
  | sub => ⟨"sub", .R, 0, 0x20, 0x33⟩
  | sll => ⟨"sll", .R, 1, 0, 0x33⟩
  | slt => ⟨"slt", .R, 2, 0, 0x33⟩
  | sltu => ⟨"sltu", .R, 3, 0, 0x33⟩
  | xor => ⟨"xor", .R, 4, 0, 0x33⟩
  | srl => ⟨"srl", .R, 5, 0, 0x33⟩
  | or => ⟨"or", .R, 6, 0, 0x33⟩
  | and => ⟨"and", .R, 7, 0, 0x33⟩
  | mul => ⟨"mul", .R, 7, 0x20, 0x33⟩
  | lw => ⟨"lw", .I, 2, 0, 0x03⟩
  | addi => ⟨"addi", .I, 0, 0, 0x13⟩
  | sltiu => ⟨"sltiu", .I, 3, 0, 0x13⟩
  | jalr => ⟨"jalr", .I, 0, 0, 0x67⟩
  | sw => ⟨"sw", .S, 2, 0, 0x23⟩
  | beq => ⟨"beq", .B, 0, 0, 0x63⟩
  | bne => ⟨"bne", .B, 1, 0, 0x63⟩
  | blt => ⟨"blt", .B, 4, 0, 0x63⟩
  | bge => ⟨"bge", .B, 5, 0, 0x63⟩
  | bltu => ⟨"bltu", .B, 6, 0, 0x63⟩
  | bgeu => ⟨"bgeu", .B, 7, 0, 0x63⟩
  | lui => ⟨"lui", .U, 0, 0, 0x37⟩
  | auipc => ⟨"auipc", .U, 0, 0, 0x17⟩
  | jal => ⟨"jal", .J, 0, 0, 0x6F⟩
  | rst => ⟨"rst", .R, 0, 0, 0x7F⟩
  | halt => ⟨"halt", .R, 7, 0x7F, 0x7F⟩
  | rvrs => ⟨"rvrs", .R, 0, 0, 0x01⟩

/-- The name in source text. -/
def mnemonic (op : Op) : String := op.row.mnemonic

/-- The mnemonic with a capital initial, which names an operation in data. -/
def title (op : Op) : String :=
  match op.mnemonic.toList with
  | [] => ""
  | initial :: rest => String.ofList (initial.toUpper :: rest)

/-- The layout of the words of an operation. -/
def format (op : Op) : Format := op.row.format

/-- The operations that the opcodes of a word select, in the order of the look-up. -/
def regular : List Op :=
  [add, sub, sll, slt, sltu, xor, srl, or, and, mul, lw, addi, sltiu, jalr, sw,
   beq, bne, blt, bge, bltu, bgeu, lui, auipc, jal]

/-- All operations: the regular ones and the three that are recognised before them. -/
def all : List Op := regular ++ [rst, halt, rvrs]

/-- Conditional branches. -/
def isBranch : Op → Bool
  | beq | bne | blt | bge | bltu | bgeu => true
  | _ => false

/-- Whether the opcodes of a word select this operation. Only three-register operations look at
the seven-bit opcode; operations with a long immediate look at the primary opcode alone. -/
def selectedBy (op : Op) (opcode funct3 funct7 : Byte) : Bool :=
  op.row.opcode == opcode &&
    match op.format with
    | .R => op.row.funct3 == funct3 && op.row.funct7 == funct7
    | .I | .S | .B => op.row.funct3 == funct3
    | .U | .J => true

/-- The regular operation that the opcodes of a word select. -/
def ofOpcodes? (opcode funct3 funct7 : Byte) : Option Op :=
  regular.find? fun op => op.selectedBy opcode funct3 funct7

/-- The regular operation with a given mnemonic. -/
def regularNamed? (name : String) : Option Op := regular.find? (·.mnemonic == name)

/-- The operation with a given mnemonic. -/
def named? (name : String) : Option Op := all.find? (·.mnemonic == name)

/-- The operands in the order in which they are written, for an operation in a word of the given
format. Loads put the offset before the base as stores do. -/
def slotsIn (op : Op) (format : Format) : List Slot :=
  match op with
  | rst | halt => []
  | rvrs => [.rd, .rs1]
  | sll | srl => [.rd, .rs1, .rs2]
  | lw => [.rd, .imm, .rs1]
  | _ => format.slots

/-- The operands of an operation in a word of its own format. -/
def slots (op : Op) : List Slot := op.slotsIn op.format

/-- The fields of a word before any operand is filled in. Only `halt` has ones in the place of
registers, so that its word is all ones. -/
def bareFields (op : Op) : Fields :=
  let register : Byte := if op = halt then 0x1F else 0
  { opcode := op.row.opcode, funct3 := op.row.funct3, funct7 := op.row.funct7
    rd := register, rs1 := register, rs2 := register }

/-- A mnemonic names one operation. -/
theorem named?_mnemonic (op : Op) : named? op.mnemonic = some op := by
  cases op <;> decide

end Op

end MiniRisc
