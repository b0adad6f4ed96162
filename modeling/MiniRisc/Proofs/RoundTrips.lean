import MiniRisc.Operation
import MiniRisc.Proofs.Layout

/-!
# From fields to words and back

Fields that are joined and split again come back masked to the widths of their places, with zero
where the format has no place and with the part of the immediate that the word stores; only an
immediate outside the range of the format is refused. A word that is split and joined again is never
refused and comes back bit by bit, except that a jump gets its bit 20 from bit 30.
-/

namespace MiniRisc

namespace Format

/-! ### Fields that come back from a word -/

/-- A format refuses an immediate that is outside the signed range of a width: of twelve bits for
short immediates and stores, of sixteen for branches, of thirty-two for upper immediates and of
twenty-one for jumps. Without an immediate there is nothing to refuse. -/
def RefusesIn (format : Format) (width : Nat) (value : Int) : Prop :=
  match format with
  | R => False
  | I | S => width = 12 ∧ (value < -2048 ∨ 2047 < value)
  | B => width = 16 ∧ (value < -32768 ∨ 32767 < value)
  | U => width = 32 ∧ (value < -2147483648 ∨ 2147483647 < value)
  | J => width = 21 ∧ (value < -1048576 ∨ 1048575 < value)

/-- What comes back of fields: seven bits of the primary opcode, five of every register, three and
seven of the other opcodes, and of the immediate what the format stores. Fields without a place in
the format come back as zero. -/
structure Keeps (format : Format) (fields back : Fields) : Prop where
  /-- The primary opcode has a place in every format. -/
  opcode : back.opcode.toNat = fields.opcode.toNat % 128
  /-- The destination register. -/
  rd : back.rd.toNat = if .rd ∈ format.slots then fields.rd.toNat % 32 else 0
  /-- The first source register. -/
  rs1 : back.rs1.toNat = if .rs1 ∈ format.slots then fields.rs1.toNat % 32 else 0
  /-- The second source register. -/
  rs2 : back.rs2.toNat = if .rs2 ∈ format.slots then fields.rs2.toNat % 32 else 0
  /-- The opcode of three bits. -/
  funct3 : back.funct3.toNat =
    if format ∈ [R, I, S, B] then fields.funct3.toNat % 8 else 0
  /-- The opcode of seven bits. -/
  funct7 : back.funct7.toNat = if format = R then fields.funct7.toNat % 128 else 0
  /-- The immediate, in closed form. -/
  imm : back.imm = format.stored fields.imm

/-- A byte that is cut to a width and kept in a byte again has lost its high bits. -/
theorem toNat_cut (x : Byte) (width : Nat) (h : width ≤ 8) :
    ((x.setWidth width).setWidth 8).toNat = x.toNat % Nat.pow 2 width := by
  rw [BitVec.toNat_setWidth_of_le h, BitVec.toNat_setWidth]
  rfl

/-- The fields that a format keeps are masked to the widths of their places. -/
theorem keeps_kept (format : Format) (fields : Fields) :
    format.Keeps fields (format.kept fields) := by
  have hopcode := toNat_cut fields.opcode 7 (by decide)
  have hrd := toNat_cut fields.rd 5 (by decide)
  have hrs1 := toNat_cut fields.rs1 5 (by decide)
  have hrs2 := toNat_cut fields.rs2 5 (by decide)
  have hfunct3 := toNat_cut fields.funct3 3 (by decide)
  have hfunct7 := toNat_cut fields.funct7 7 (by decide)
  cases format
  case R => exact ⟨hopcode, hrd, hrs1, hrs2, hfunct3, hfunct7, rfl⟩
  case I => exact ⟨hopcode, hrd, hrs1, rfl, hfunct3, rfl, rfl⟩
  case S | B => exact ⟨hopcode, rfl, hrs1, hrs2, hfunct3, rfl, rfl⟩
  case U | J => exact ⟨hopcode, hrd, rfl, rfl, rfl, rfl, rfl⟩

/-- Joining fails exactly on the immediates that the format refuses. -/
theorem join_eq_error_iff_refusesIn {format : Format} {fields : Fields} {error : RangeError} :
    format.join fields = .error error ↔
      error.value = fields.imm ∧ format.RefusesIn error.width fields.imm := by
  have herror : error = ⟨fields.imm, format.immediateWidth⟩ ↔
      error.value = fields.imm ∧ error.width = format.immediateWidth := by
    cases error
    rw [RangeError.mk.injEq]
  rw [join_eq_error_iff, herror]
  cases format <;>
    simp only [RefusesIn, Signed.Fits, Signed.half, immediateWidth, Nat.pow_eq, Nat.reduceSub,
      Nat.reducePow, Int.ofNat_eq_natCast, reduceCtorEq, ne_eq, not_true_eq_false,
      not_false_eq_true, true_and, false_and, and_false] <;>
    omega

/-- Joining fields fails exactly if the format refuses the immediate, and the error then tells the
immediate and the width. Exactly if the format does not refuse it, joining gives a word, and
splitting the word gives the fields back as the format keeps them. -/
theorem join_refuses_or_keeps (format : Format) (fields : Fields) :
    (∀ error, format.join fields = .error error ↔
      error.value = fields.imm ∧ format.RefusesIn error.width fields.imm) ∧
    ((∃ word, format.join fields = .ok word ∧ format.Keeps fields (format.split word)) ↔
      ∀ width, ¬format.RefusesIn width fields.imm) := by
  refine ⟨fun error => join_eq_error_iff_refusesIn, ?_, fun hnone => ?_⟩
  · rintro ⟨word, hword, -⟩ width hrefuses
    have herror : format.join fields = .error ⟨fields.imm, width⟩ :=
      join_eq_error_iff_refusesIn.2 ⟨rfl, hrefuses⟩
    rw [hword] at herror
    cases herror
  · cases hj : format.join fields with
    | error error => exact absurd (join_eq_error_iff_refusesIn.1 hj).2 (hnone error.width)
    | ok word =>
      have hkeeps := format.keeps_kept fields
      rw [← split_join hj] at hkeeps
      exact ⟨word, rfl, hkeeps⟩

/-- The slot of a jump that is read as bit 11 is written with bit 10. -/
example : (J.join { opcode := 0x6F, rd := 0xFF, rs1 := 3, imm := 1024 }).map J.split =
    .ok { opcode := 0x6F, rd := 0x1F, imm := 3072 } := by
  rfl

/-! ### Words that come back from their fields -/

/-- The bits of a restored word are those of the word, except that bit 20 of a jump is bit 30. -/
theorem getLsbD_restored (format : Format) (word : Word) (place : Nat) :
    (format.restored word).getLsbD place =
      word.getLsbD (if format = J ∧ place = 20 then 30 else place) := by
  cases format
  case J =>
    simp only [restored, BitVec.getLsbD_append, BitVec.getLsbD_extractLsb', true_and]
    rcases Nat.lt_trichotomy place 20 with hlow | hslot | hhigh
    · have hne : place ≠ 20 := by omega
      rw [if_pos hlow, if_neg hne, decide_eq_true hlow, Bool.true_and, Nat.zero_add]
    · rw [hslot]
      rfl
    · have hlow : ¬place < 20 := by omega
      have hslot : ¬place - 20 < 1 := by omega
      have hne : place ≠ 20 := by omega
      have hplace : 21 + (place - 20 - 1) = place := by omega
      rw [if_neg hlow, if_neg hslot, if_neg hne, hplace]
      by_cases hword : place - 20 - 1 < 11
      · rw [decide_eq_true hword, Bool.true_and]
      · rw [decide_eq_false hword, Bool.false_and, word.getLsbD_of_ge place (by omega)]
  all_goals rfl

/-- A restored word is the word itself, unless it is a jump whose bits 20 and 30 differ. -/
theorem restored_eq_self_iff (format : Format) (word : Word) :
    format.restored word = word ↔ format ≠ J ∨ word.getLsbD 20 = word.getLsbD 30 := by
  constructor
  · intro h
    by_cases hj : format = J
    · have hbit := format.getLsbD_restored word 20
      rw [h, if_pos ⟨hj, rfl⟩] at hbit
      exact .inr hbit
    · exact .inl hj
  · intro h
    refine BitVec.eq_of_getLsbD_eq fun place _ => ?_
    rw [getLsbD_restored]
    by_cases hp : format = J ∧ place = 20
    · rw [if_pos hp, hp.2, h.resolve_left (not_not_intro hp.1)]
    · rw [if_neg hp]

/-- Joining the parts of a word succeeds for every format, and every bit of the result is that of
the word, except that bit 20 of a jump is bit 30 of the word. So the word comes back in all other
formats, and as a jump exactly if these two bits agree. -/
theorem join_split_by_bits (format : Format) (word : Word) :
    ∃ back, format.join (format.split word) = .ok back ∧
      (∀ place, back.getLsbD place =
        word.getLsbD (if format = J ∧ place = 20 then 30 else place)) ∧
      (back = word ↔ format ≠ J ∨ word.getLsbD 20 = word.getLsbD 30) :=
  ⟨format.restored word, format.join_split word, format.getLsbD_restored word,
    format.restored_eq_self_iff word⟩

end Format

end MiniRisc
