import MiniRisc.Proofs.Layout
import MiniRisc.Instruction

/-!
# From the opcodes of a word to its instruction

The opcodes that a word keeps in the format of a regular operation decide whether it is read as
that operation. A word is read in one of four ways, and the three that come before the look-up
leave nothing to the opcodes of regular operations.
-/

namespace MiniRisc

namespace Op

/-- Fields with the opcodes of an operation. -/
def Heads (op : Op) (fields : Fields) : Prop :=
  fields.opcode = op.row.opcode ∧ fields.funct3 = op.row.funct3 ∧ fields.funct7 = op.row.funct7

/-- The look-up finds the regular operations that opcodes select, and no two answer to the same. -/
theorem ofOpcodes?_eq_some_iff {op : Op} {opcode funct3 funct7 : Byte} :
    ofOpcodes? opcode funct3 funct7 = some op ↔
      op ∈ regular ∧ op.selectedBy opcode funct3 funct7 = true := by
  constructor
  · intro h
    rw [ofOpcodes?] at h
    have hs := List.find?_some h
    exact ⟨List.mem_of_find?_eq_some h, hs⟩
  · rintro ⟨hr, hs⟩
    cases op <;>
      simp only [selectedBy, format, row, Bool.and_eq_true, beq_iff_eq, Bool.and_true] at hs
    all_goals
      first
        | exact absurd hr (by decide)
        | (obtain ⟨rfl, rfl, rfl⟩ := hs; rfl)

/-- The opcodes that a word keeps in the format of a regular operation are those that select it. -/
theorem selectedBy_iff_heads {op : Op} (hr : op ∈ regular) (word : Word) :
    op.selectedBy (Format.R.split word).opcode (Format.R.split word).funct3
      (Format.R.split word).funct7 = true ↔ op.Heads (op.format.split word) := by
  cases op
  case rst | halt | rvrs => exact absurd hr (by decide)
  all_goals
    simp only [selectedBy, Heads, format, row, Format.split, Bool.and_eq_true, beq_iff_eq,
      Bool.and_true, @eq_comm Byte, and_true]

/-- No regular operation has the opcode of those that are recognised before the look-up. -/
theorem opcode_ne {op : Op} (hr : op ∈ regular) :
    op.row.opcode ≠ rvrs.row.opcode ∧ op.row.opcode ≠ rst.row.opcode := by
  revert hr
  cases op <;> decide

/-- What a format keeps of fields with the opcodes of a regular operation has these opcodes. -/
theorem heads_kept {op : Op} (hr : op ∈ regular) {fields : Fields} (h : op.Heads fields) :
    op.Heads (op.format.kept fields) := by
  obtain ⟨ho, h3, h7⟩ := h
  cases op
  case rst | halt | rvrs => exact absurd hr (by decide)
  all_goals
    simp only [Heads, Format.kept, format, row] at ho h3 h7 ⊢
    rw [ho]
    try rw [h3]
    try rw [h7]
    decide

end Op

namespace Instruction

/-- The instruction of a word that is read in the format of an operation. -/
def reading (op : Op) (word : Word) : Instruction :=
  let fields := op.format.split word
  { op, format := op.format, raw := word, rd := fields.rd, rs1 := fields.rs1, rs2 := fields.rs2
    imm := BitVec.ofInt 32 fields.imm }

/-- The instruction of a word that reverses the bits of a register. -/
def reversal (word : Word) : Instruction :=
  { op := .rvrs, format := .R, raw := word, rd := (Format.R.split word).rd
    rs1 := (Format.R.split word).rs1 }

/-- The fields that are read from a reversal. -/
def reversalFields (word : Word) : Fields where
  opcode := Op.rvrs.row.opcode
  rd := (Format.R.split word).rd
  rs1 := (Format.R.split word).rs1

/-- A word with the opcodes of a regular operation stands for that operation. -/
theorem ofWord?_of_heads {op : Op} (hr : op ∈ Op.regular) {word : Word}
    (h : op.Heads (op.format.split word)) : ofWord? word = some (reading op word) := by
  have hs := (Op.selectedBy_iff_heads hr word).2 h
  have ho : (Format.R.split word).opcode = op.row.opcode := by
    simp only [Op.selectedBy, Bool.and_eq_true, beq_iff_eq] at hs
    exact hs.1.symm
  have hn := Op.opcode_ne hr
  have hreset : word ≠ Word.reset := by
    rintro rfl
    exact hn.2 ho.symm
  have hhalt : word ≠ Word.halt := by
    rintro rfl
    exact hn.2 ho.symm
  have hrvrs : (Format.R.split word).opcode ≠ Op.rvrs.row.opcode := ho ▸ hn.1
  simp only [ofWord?, if_neg hreset, if_neg hhalt, if_neg hrvrs,
    Op.ofOpcodes?_eq_some_iff.2 ⟨hr, hs⟩, Option.map_some, reading]

/-- A word with the opcode of a reversal is one. -/
theorem ofWord?_of_reversal {word : Word}
    (h : (Format.R.split word).opcode = Op.rvrs.row.opcode) :
    ofWord? word = some (reversal word) := by
  have hreset : word ≠ Word.reset := by
    rintro rfl
    exact absurd h (by decide)
  have hhalt : word ≠ Word.halt := by
    rintro rfl
    exact absurd h (by decide)
  simp only [ofWord?, if_neg hreset, if_neg hhalt, if_pos h, reversal]

/-- A word stands for an instruction in one of four ways. -/
theorem cases_of_ofWord? {word : Word} {instruction : Instruction}
    (h : ofWord? word = some instruction) :
    (word = Word.reset ∧ instruction = { op := .rst, format := .R, raw := word }) ∨
      (word = Word.halt ∧ instruction = { op := .halt, format := .R, raw := word }) ∨
      ((Format.R.split word).opcode = Op.rvrs.row.opcode ∧ instruction = reversal word) ∨
      ∃ op ∈ Op.regular, op.Heads (op.format.split word) ∧ instruction = reading op word := by
  unfold ofWord? at h
  split at h
  case isTrue hw => exact .inl ⟨hw, (Option.some.inj h).symm⟩
  case isFalse =>
    split at h
    case isTrue hw => exact .inr (.inl ⟨hw, (Option.some.inj h).symm⟩)
    case isFalse =>
      dsimp only at h
      split at h
      case isTrue ho => exact .inr (.inr (.inl ⟨ho, (Option.some.inj h).symm⟩))
      case isFalse =>
        obtain ⟨op, hop, hi⟩ := Option.map_eq_some_iff.1 h
        obtain ⟨hr, hs⟩ := Op.ofOpcodes?_eq_some_iff.1 hop
        exact .inr (.inr (.inr ⟨op, hr, (Op.selectedBy_iff_heads hr word).1 hs, hi.symm⟩))

/-- The word that is joined from fields with the opcodes of a regular operation stands for it, with
the fields that the format keeps. -/
theorem ofWord?_join {op : Op} (hr : op ∈ Op.regular) {fields : Fields} (hh : op.Heads fields)
    {word : Word} (h : op.format.join fields = .ok word) :
    ofWord? word = some (reading op word) ∧ op.format.split word = op.format.kept fields := by
  have hs := Format.split_join h
  exact ⟨ofWord?_of_heads hr (hs ▸ Op.heads_kept hr hh), hs⟩

/-- The immediate of a regular instruction is the integer that its word stores. -/
theorem toInt_imm_reading (op : Op) (word : Word) :
    (reading op word).imm.toInt = (op.format.split word).imm := by
  have hf : op.format = .R ∨ Signed.Fits op.format.immediateWidth (op.format.immediate word) :=
    (Decidable.em (op.format = .R)).imp_right fun h => Format.fits_immediate h word
  simp only [reading, Format.imm_split]
  cases hop : op.format <;>
    simp only [hop, reduceCtorEq, false_or, Format.immediateWidth, Signed.Fits, Signed.half,
      Nat.pow_eq, Nat.reduceSub, Nat.reducePow, Int.ofNat_eq_natCast] at hf
  case R => rfl
  all_goals
    rw [BitVec.toInt_ofInt]
    exact Int.bmod_eq_of_le (by omega) (by omega)

/-- A register that a word holds has five bits. -/
theorem lt_of_split (format : Format) (word : Word) :
    (format.split word).rd.toNat < 32 ∧ (format.split word).rs1.toNat < 32 ∧
      (format.split word).rs2.toNat < 32 := by
  have hz : (0 : Byte).toNat < 32 := by decide
  have hc : ∀ start, ((word.extractLsb' start 5).setWidth 8).toNat < 32 := by
    intro start
    rw [BitVec.toNat_setWidth_of_le (by decide)]
    exact BitVec.isLt _
  cases format
  case R => exact ⟨hc 7, hc 15, hc 20⟩
  case I => exact ⟨hc 7, hc 15, hz⟩
  case S | B => exact ⟨hz, hc 15, hc 20⟩
  case U | J => exact ⟨hc 7, hz, hz⟩

/-- The registers of an instruction have five bits. -/
theorem lt_of_ofWord? {word : Word} {instruction : Instruction}
    (h : ofWord? word = some instruction) :
    instruction.rd.toNat < 32 ∧ instruction.rs1.toNat < 32 ∧ instruction.rs2.toNat < 32 := by
  have hz : (0 : Byte).toNat < 32 := by decide
  rcases cases_of_ofWord? h with ⟨-, rfl⟩ | ⟨-, rfl⟩ | ⟨-, rfl⟩ | ⟨op, -, -, rfl⟩
  · exact ⟨hz, hz, hz⟩
  · exact ⟨hz, hz, hz⟩
  · exact ⟨(lt_of_split .R word).1, (lt_of_split .R word).2.1, hz⟩
  · exact lt_of_split op.format word

end Instruction

end MiniRisc
