import MiniRisc.Signed

/-!
# Instruction layouts

Six formats place an opcode, registers, two secondary opcodes and an immediate in a word. Joining
fields keeps the low bits of every field that the format carries and drops the others; splitting a
word leaves a field at zero where the format carries none.

A branch offset is accepted as a pattern of sixteen bits and stored in twelve, bits 12 to 1; its
upper three bits repeat the sign when it is read. A jump offset is accepted as a pattern of
twenty-one bits; the slot that is read as its bit 11 is written with its bit 10, so only offsets
whose bits 10 and 11 agree come back. The places of both patterns are counted from their most
significant bit.
-/

namespace MiniRisc

/-- The layout class of an instruction word. -/
inductive Format where
  /-- Three registers. -/
  | R
  /-- Two registers and a short immediate. -/
  | I
  /-- A store: two source registers and a short immediate. -/
  | S
  /-- A conditional branch: two source registers and an offset. -/
  | B
  /-- A register and the upper twenty bits of an immediate. -/
  | U
  /-- A register and a long offset. -/
  | J
deriving DecidableEq, Repr

/-- The values that an instruction word is made of. -/
structure Fields where
  /-- Primary opcode, seven bits of the word. -/
  opcode : Byte := 0
  /-- Destination register, five bits. -/
  rd : Byte := 0
  /-- First source register, five bits. -/
  rs1 : Byte := 0
  /-- Second source register, five bits. -/
  rs2 : Byte := 0
  /-- Three-bit secondary opcode. -/
  funct3 : Byte := 0
  /-- Seven-bit secondary opcode. -/
  funct7 : Byte := 0
  /-- The immediate as an integer. -/
  imm : Int := 0
deriving DecidableEq, Repr

/-- The bits of a pattern of some width in the places from `first` up to `last`, counted from the
most significant one. -/
def Word.taken (pattern : Word) (width first last : Nat) : BitVec (last - first) :=
  pattern.extractLsb' (width - last) (last - first)

/-- The pattern with bits put into these places, which were zero. -/
def Word.put (pattern : Word) (width first last : Nat) (bits : BitVec (last - first)) : Word :=
  pattern ||| bits.setWidth 32 <<< (width - last)

namespace Format

/-- All formats. -/
def all : List Format := [R, I, S, B, U, J]

/-- The letter that names a format. -/
def letter : Format → String
  | R => "R"
  | I => "I"
  | S => "S"
  | B => "B"
  | U => "U"
  | J => "J"

/-- Whether the immediate of the format is the distance to a branch or jump target. -/
def hasOffset : Format → Bool
  | B | J => true
  | R | I | S | U => false

/-- The width in which an immediate of the format is accepted; zero where there is none. -/
def immediateWidth : Format → Nat
  | R => 0
  | I | S => 12
  | B => 16
  | U => 32
  | J => 21

/-- Puts the fields and the bits of an encoded immediate in their places. -/
def place (format : Format) (fields : Fields) (imm : Word) : Word :=
  let opcode := fields.opcode.setWidth 7
  let rd := fields.rd.setWidth 5
  let rs1 := fields.rs1.setWidth 5
  let rs2 := fields.rs2.setWidth 5
  let funct3 := fields.funct3.setWidth 3
  let funct7 := fields.funct7.setWidth 7
  match format with
  | R => funct7 ++ rs2 ++ rs1 ++ funct3 ++ rd ++ opcode
  | I => imm.extractLsb' 0 12 ++ rs1 ++ funct3 ++ rd ++ opcode
  | S => imm.extractLsb' 5 7 ++ rs2 ++ rs1 ++ funct3 ++ imm.extractLsb' 0 5 ++ opcode
  | B =>
    imm.taken 16 3 4 ++ imm.taken 16 5 11 ++ rs2 ++ rs1 ++ funct3 ++ imm.taken 16 11 15 ++
      imm.taken 16 4 5 ++ opcode
  | U => imm.extractLsb' 12 20 ++ rd ++ opcode
  | J =>
    -- the third slice is read back one place further up
    imm.taken 21 0 1 ++ imm.taken 21 10 20 ++ imm.taken 21 10 11 ++ imm.taken 21 1 9 ++ rd ++ opcode

/-- The word with these fields, if the format has no immediate or accepts the one given. -/
def join (format : Format) (fields : Fields) : Except RangeError Word :=
  match format with
  | R => .ok (place R fields 0)
  | format => (Signed.encode format.immediateWidth fields.imm).map fun pattern =>
      format.place fields (pattern.setWidth 32)

/-- The immediate that a word of the format stores. -/
def immediate (format : Format) (word : Word) : Int :=
  match format with
  | R => 0
  | I => (word.extractLsb' 20 12).toInt
  | S => (word.extractLsb' 25 7 ++ word.extractLsb' 7 5).toInt
  | B =>
    let stored := Word.put 0 16 3 4 (word.extractLsb' 31 1)
    let stored := stored.put 16 5 11 (word.extractLsb' 25 6)
    let stored := stored.put 16 11 15 (word.extractLsb' 8 4)
    let stored := stored.put 16 4 5 (word.extractLsb' 7 1)
    -- the places before the sign are not stored
    let pattern := if stored.taken 16 3 4 = 1 then stored.put 16 0 3 0b111 else stored
    Signed.decode 16 pattern
  | U => (word.extractLsb' 12 20 ++ 0#12).toInt
  | J =>
    let pattern := Word.put 0 21 0 1 (word.extractLsb' 31 1)
    let pattern := pattern.put 21 10 20 (word.extractLsb' 21 10)
    let pattern := pattern.put 21 9 10 (word.extractLsb' 20 1)
    let pattern := pattern.put 21 1 9 (word.extractLsb' 12 8)
    Signed.decode 21 pattern

/-- The fields that the format carries, read from a word; the others are zero. -/
def split (format : Format) (word : Word) : Fields :=
  let opcode := (word.extractLsb' 0 7).setWidth 8
  let rd := (word.extractLsb' 7 5).setWidth 8
  let rs1 := (word.extractLsb' 15 5).setWidth 8
  let rs2 := (word.extractLsb' 20 5).setWidth 8
  let funct3 := (word.extractLsb' 12 3).setWidth 8
  let funct7 := (word.extractLsb' 25 7).setWidth 8
  let imm := format.immediate word
  match format with
  | R => { opcode, rd, rs1, rs2, funct3, funct7 }
  | I => { opcode, rd, rs1, funct3, imm }
  | S | B => { opcode, rs1, rs2, funct3, imm }
  | U | J => { opcode, rd, imm }

/-- Whether an immediate is accepted and comes back unchanged from the word that it is put in. -/
def stores (format : Format) (offset : Int) : Bool :=
  match format.join { imm := offset } with
  | .ok word => (format.split word).imm == offset
  | .error _ => false

/-- Joining fails only on the immediate, and then reports the width of the format. -/
theorem join_eq_error_iff {format : Format} {fields : Fields} {error : RangeError} :
    format.join fields = .error error ↔
      format ≠ R ∧ ¬ Signed.Fits format.immediateWidth fields.imm ∧
        error = ⟨fields.imm, format.immediateWidth⟩ := by
  by_cases fits : Signed.Fits format.immediateWidth fields.imm <;> cases format <;>
    simp_all [join, Signed.encode, Except.map, eq_comm]

end Format

end MiniRisc
