import MiniRisc.Proofs.Slices

/-!
# What a word keeps of its fields

Joining puts slices of the fields side by side and splitting cuts them out again. The fields that
a format carries come back cut to their widths, and the immediate comes back as the number that
its slots hold, which is given here in closed form. Taking a word apart and joining the parts
gives the word again; only the slot of a jump that is read as bit 11 is overwritten.
-/

namespace MiniRisc

/-- Bits written side by side are digits: the number of the high part counts multiples of the
size of the low part. -/
theorem toNat_append_add {high low : Nat} (x : BitVec high) (y : BitVec low) :
    (x ++ y).toNat = Nat.pow 2 low * x.toNat + y.toNat := by
  rw [BitVec.toNat_append, Nat.shiftLeft_eq, Nat.mul_comm, ← Nat.two_pow_add_eq_or_of_lt y.isLt]
  rfl

/-- The number of a slice is a quotient cut to the length of the slice. -/
theorem toNat_slice {width : Nat} (x : BitVec width) (start length : Nat) :
    (x.extractLsb' start length).toNat = x.toNat / Nat.pow 2 start % Nat.pow 2 length := by
  rw [BitVec.extractLsb'_toNat, Nat.shiftRight_eq_div_pow]
  rfl

/-- Bits with the number of an integer modulo their size are read as that integer, wrapped into
the signed range. -/
theorem toInt_of_toNat {width : Nat} {x : BitVec width} {value : Int} (size : Nat)
    (hs : Nat.pow 2 width = size) (h : (x.toNat : Int) = value % size) :
    x.toInt = value.bmod size := by
  subst hs
  rw [BitVec.toInt_eq_toNat_bmod, h]
  exact Int.emod_bmod value (Nat.pow 2 width)

/-- Sign extension adds bits above a pattern and changes no slice of it. -/
theorem slice_signExtend {size width start length : Nat} (x : BitVec size)
    (hs : size ≤ width) (hw : width ≤ 32) (h : start + length ≤ size) :
    ((BitVec.ofInt width x.toInt).setWidth 32).extractLsb' start length =
      x.extractLsb' start length := by
  rw [← BitVec.signExtend]
  ext i hi
  have h1 : start + i < 32 := by omega
  have h2 : start + i < width := by omega
  have h3 : start + i < size := by omega
  simp only [BitVec.getElem_extractLsb', BitVec.getLsbD_setWidth, BitVec.getLsbD_signExtend,
    h1, h2, h3, decide_true, Bool.true_and, if_true]

/-- A field of at most eight bits is not changed by the byte that keeps it. -/
theorem cut_byte {width : Nat} (x : BitVec width) (h : width ≤ 8) :
    (x.setWidth 8).setWidth width = x := by
  rw [BitVec.setWidth_setWidth_of_le x h, BitVec.setWidth_eq]

namespace Format

/-- The number that a word stores of an immediate: branches keep thirteen bits with the lowest
cleared, long immediates lose their low twelve bits, and a jump keeps bit 10 in place of bit 11. -/
def stored : Format → Int → Int
  | R, _ => 0
  | I, value | S, value => value
  | B, value => (value - value % 2).bmod 8192
  | U, value => value - value % 4096
  | J, value => value - value % 2 + 2048 * (value / 1024 % 2 - value / 2048 % 2)

/-- The fields that a format carries, each cut to its width, with the immediate that is stored. -/
def kept (format : Format) (fields : Fields) : Fields :=
  let opcode := (fields.opcode.setWidth 7).setWidth 8
  let rd := (fields.rd.setWidth 5).setWidth 8
  let rs1 := (fields.rs1.setWidth 5).setWidth 8
  let rs2 := (fields.rs2.setWidth 5).setWidth 8
  let funct3 := (fields.funct3.setWidth 3).setWidth 8
  let funct7 := (fields.funct7.setWidth 7).setWidth 8
  let imm := format.stored fields.imm
  match format with
  | R => { opcode, rd, rs1, rs2, funct3, funct7 }
  | I => { opcode, rd, rs1, funct3, imm }
  | S | B => { opcode, rs1, rs2, funct3, imm }
  | U | J => { opcode, rd, imm }

/-- The word that is joined from the parts of a word. -/
def restored (format : Format) (word : Word) : Word :=
  match format with
  | J => word.extractLsb' 21 11 ++ word.extractLsb' 30 1 ++ word.extractLsb' 0 20
  | R | I | S | B | U => word

/-- The two's-complement pattern of an immediate in the width of its format. -/
def pattern (format : Format) (value : Int) : Word :=
  (BitVec.ofInt format.immediateWidth value).setWidth 32

/-- The number of a pattern is the immediate modulo the size of the format. -/
theorem toNat_pattern (format : Format) (value : Int) :
    ((format.pattern value).toNat : Int) = value % Nat.pow 2 format.immediateWidth := by
  cases format <;> simp only [pattern, immediateWidth, BitVec.toNat_setWidth, BitVec.toNat_ofInt,
    Nat.pow_eq, Nat.reducePow] <;> omega

/-- Joining succeeds on the immediates in range and places the pattern. -/
theorem join_eq_ok_iff {format : Format} {fields : Fields} {word : Word} :
    format.join fields = .ok word ↔
      (format = R ∨ Signed.Fits format.immediateWidth fields.imm) ∧
        word = format.place fields (format.pattern fields.imm) := by
  by_cases hf : Signed.Fits format.immediateWidth fields.imm <;> cases format <;>
    simp [join, Signed.encode, Except.map, pattern, hf, eq_comm]
  all_goals rfl

/-- A word stores an immediate in range as the number that its slots hold. -/
theorem immediate_place {format : Format} {value : Int} (fields : Fields)
    (h : Signed.Fits format.immediateWidth value) :
    format.immediate (format.place fields (format.pattern value)) = format.stored value := by
  have hp := toNat_pattern format value
  generalize format.pattern value = bits at hp
  cases format <;>
    simp only [Signed.Fits, Signed.half, immediateWidth, Nat.pow_eq, Nat.reduceSub, Nat.reducePow,
      Int.ofNat_eq_natCast] at h hp
  case R => rfl
  all_goals
    simp (disch := decide) only [immediate_eq_slices, place, Word.taken, stored,
      BitVec.extractLsb'_append_eq_of_le, BitVec.extractLsb'_append_eq_of_add_le,
      BitVec.extractLsb'_eq_self, Nat.reduceSub]
  case I =>
    refine (toInt_of_toNat 4096 rfl ?_).trans (Int.bmod_eq_of_le (by omega) (by omega))
    simp only [toNat_slice, Nat.pow_eq, Nat.reducePow]
    omega
  case S =>
    refine (toInt_of_toNat 4096 rfl ?_).trans (Int.bmod_eq_of_le (by omega) (by omega))
    simp only [toNat_append_add, toNat_slice, Nat.pow_eq, Nat.reducePow]
    omega
  case B =>
    refine toInt_of_toNat 8192 rfl ?_
    simp only [toNat_append_add, toNat_slice, Nat.pow_eq, Nat.reducePow, BitVec.toNat_ofNat]
    omega
  case U =>
    refine (toInt_of_toNat 4294967296 rfl ?_).trans (Int.bmod_eq_of_le (by omega) (by omega))
    simp only [toNat_append_add, toNat_slice, Nat.pow_eq, Nat.reducePow, BitVec.toNat_ofNat]
    omega
  case J =>
    refine (toInt_of_toNat 2097152 rfl ?_).trans (Int.bmod_eq_of_le (by omega) (by omega))
    simp only [toNat_append_add, toNat_slice, Nat.pow_eq, Nat.reducePow, BitVec.toNat_ofNat]
    generalize bits.toNat = p at *
    have hten : ((p / 1024 % 2 : Nat) : Int) = value / 1024 % 2 := by omega
    have heleven : ((p / 2048 % 2 : Nat) : Int) = value / 2048 % 2 := by omega
    have hall : p / 1048576 % 2 * 1048576 + p / 4096 % 256 * 4096 + p / 2048 % 2 * 2048 +
        p / 2 % 1024 * 2 = p / 2 * 2 := by omega
    rw [← hten, ← heleven]
    omega

/-- Splitting a joined word gives the fields that the format keeps. -/
theorem split_join {format : Format} {fields : Fields} {word : Word}
    (h : format.join fields = .ok word) : format.split word = format.kept fields := by
  obtain ⟨hf, rfl⟩ := join_eq_ok_iff.1 h
  have hi : format = R ∨ format.immediate (format.place fields (format.pattern fields.imm)) =
      format.stored fields.imm := hf.imp_right (immediate_place fields)
  generalize format.pattern fields.imm = bits at hi
  cases format
  case R =>
    simp (disch := decide) only [split, kept, place, BitVec.extractLsb'_append_eq_of_le,
      BitVec.extractLsb'_append_eq_of_add_le, BitVec.extractLsb'_eq_self, Nat.reduceSub]
  all_goals
    simp only [split, kept, hi.resolve_left (by decide)]
    simp (disch := decide) only [place, Word.taken, BitVec.extractLsb'_append_eq_of_le,
      BitVec.extractLsb'_append_eq_of_add_le, BitVec.extractLsb'_eq_self, Nat.reduceSub]

/-- The signed reading of bits is in the range of every width that holds them. -/
theorem fits_toInt {size width : Nat} (h : size ≤ width) (x : BitVec size) :
    Signed.Fits width x.toInt := by
  have hl := BitVec.le_toInt x
  have hu := BitVec.toInt_lt (x := x)
  have hp : (2 ^ (size - 1) : Int) ≤ Signed.half width := by
    have hn : 2 ^ (size - 1) ≤ 2 ^ (width - 1) :=
      Nat.pow_le_pow_right (by decide) (Nat.sub_le_sub_right h 1)
    rw [Signed.half, Int.ofNat_eq_natCast, Nat.pow_eq]
    exact_mod_cast hn
  exact ⟨by omega, by omega⟩

/-- The immediate that a word stores is in the range of its format. -/
theorem fits_immediate {format : Format} (h : format ≠ R) (word : Word) :
    Signed.Fits format.immediateWidth (format.immediate word) := by
  cases format
  case R => exact absurd rfl h
  all_goals exact fits_toInt (by decide) _

/-- The immediate that is split from a word is the one that it stores. -/
theorem imm_split (format : Format) (word : Word) :
    (format.split word).imm = format.immediate word := by
  cases format <;> rfl

/-- Joining the parts of a word succeeds and restores the word. -/
theorem join_split (format : Format) (word : Word) :
    format.join (format.split word) = .ok (format.restored word) := by
  have hi := format.imm_split word
  have hf : format = R ∨ Signed.Fits format.immediateWidth (format.immediate word) :=
    (Decidable.em (format = R)).imp_right fun h => fits_immediate h word
  refine join_eq_ok_iff.2 ⟨hi ▸ hf, ?_⟩
  rw [hi]
  cases format <;>
    simp (disch := decide) only [restored, place, Word.taken, split, pattern, immediate_eq_slices,
      immediateWidth, cut_byte, slice_signExtend, BitVec.extractLsb'_append_eq_of_le,
      BitVec.extractLsb'_append_eq_of_add_le, BitVec.extractLsb'_eq_self, Nat.reduceSub,
      BitVec.extractLsb'_append_extractLsb'_eq_extractLsb']
  case J =>
    apply BitVec.eq_of_toNat_eq
    simp only [toNat_append_add, toNat_slice]
    simp only [Nat.pow_eq, Nat.reduceAdd, Nat.reducePow]
    omega

/-- A word whose bits 20 and 30 agree is restored. -/
theorem restored_eq_self {word : Word} (h : word.extractLsb' 30 1 = word.extractLsb' 20 1) :
    J.restored word = word := by
  have hh : word.extractLsb' 21 11 ++ word.extractLsb' 20 1 = word.extractLsb' 20 (11 + 1) :=
    BitVec.extractLsb'_append_extractLsb'_eq_extractLsb' rfl
  have hl : word.extractLsb' 20 (11 + 1) ++ word.extractLsb' 0 20 =
      word.extractLsb' 0 (11 + 1 + 20) :=
    BitVec.extractLsb'_append_extractLsb'_eq_extractLsb' rfl
  simp only [restored, h, hh]
  exact hl.trans BitVec.extractLsb'_eq_self

/-- A joined word is restored. -/
theorem restored_of_join {format : Format} {fields : Fields} {word : Word}
    (h : format.join fields = .ok word) : format.restored word = word := by
  obtain ⟨-, rfl⟩ := join_eq_ok_iff.1 h
  cases format
  case J =>
    refine restored_eq_self ?_
    simp (disch := decide) only [place, Word.taken, BitVec.extractLsb'_append_eq_of_le,
      BitVec.extractLsb'_append_eq_of_add_le, BitVec.extractLsb'_eq_self, Nat.reduceSub]
    ext i hi
    simp only [BitVec.getElem_extractLsb', BitVec.getLsbD_extractLsb']
    have hb : 9 + i < 10 := by omega
    have ha : 1 + (9 + i) = 10 + i := by omega
    rw [ha, decide_eq_true hb, Bool.true_and]
  all_goals rfl

/-- An immediate comes back from its word if it is accepted and is what the word stores of it. -/
theorem stores_iff {format : Format} {value : Int} :
    format.stores value = true ↔
      (format = R ∨ Signed.Fits format.immediateWidth value) ∧ format.stored value = value := by
  have hk : (format.kept { imm := value }).imm = format.stored value := by cases format <;> rfl
  unfold stores
  split
  case h_1 word hw =>
    rw [split_join hw, hk, beq_iff_eq]
    exact ⟨fun h => ⟨(join_eq_ok_iff.1 hw).1, h⟩, fun h => h.2⟩
  case h_2 error he =>
    obtain ⟨hr, hf, -⟩ := join_eq_error_iff.1 he
    simp only [Bool.false_eq_true, hr, hf, or_self, false_and]

/-- A joined word is the one whose parts are those that the format keeps of the fields. -/
theorem eq_iff_of_join {format : Format} {fields : Fields} {word other : Word}
    (h : format.join fields = .ok word) (ho : format.restored other = other) :
    word = other ↔ format.kept fields = format.split other := by
  rw [← split_join h]
  constructor
  · rintro rfl
    rfl
  · intro hs
    have hj := join_split format word
    rw [hs, join_split, ho, restored_of_join h] at hj
    exact (Except.ok.inj hj).symm

end Format

end MiniRisc
