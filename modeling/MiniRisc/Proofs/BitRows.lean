import MiniRisc.Proofs.Decoding

/-!
# Instructions from rows of bits

What a word stands for is said here once more by the bits of the word alone. A row lists bits with
the most significant first, and its number comes from counting its bits one after the other, the
first one negatively in two's complement. Rows, their numbers and the tables of places below are
specification only: no instruction is read with them.
-/

namespace MiniRisc

/-! ### Rows of bits and their numbers -/

namespace Bits

/-- The number that is reached from a start by counting on with a row of bits: every bit doubles
what was counted before it and adds its own worth. -/
def count (start : Int) (row : List Bool) : Int :=
  row.foldl (fun value bit => 2 * value + bit.toNat) start

/-- The number of a row without a sign. -/
def unsigned (row : List Bool) : Int := count 0 row

/-- The number of a row in two's complement: the first bit counts negatively. -/
def signed : List Bool → Int
  | [] => 0
  | sign :: rest => count (-sign.toNat) rest

/-- The bits of a bit vector, most significant first. -/
def ofBitVec {width : Nat} (x : BitVec width) : List Bool :=
  (List.range width).reverse.map x.getLsbD

/-- The row of a vector has the bits that stand in its places. -/
theorem map_places_eq {width : Nat} {x : BitVec width} {bit : Nat → Bool}
    (h : ∀ place < width, bit place = x.getLsbD place) :
    (List.range width).reverse.map bit = ofBitVec x :=
  List.map_congr_left fun place hp => h place (List.mem_range.1 (List.mem_reverse.1 hp))

/-- A row begins with the sign bit of the vector and goes on with the row of the other bits. -/
theorem ofBitVec_succ {width : Nat} (x : BitVec (width + 1)) :
    ofBitVec x = x.msb :: ofBitVec (x.setWidth width) := by
  have hsign : x.getLsbD width = x.msb := (BitVec.msb_eq_getLsbD_last x).symm
  have hrest : (List.range width).reverse.map x.getLsbD = ofBitVec (x.setWidth width) := by
    refine map_places_eq fun place hp => ?_
    rw [BitVec.getLsbD_setWidth, decide_eq_true hp, Bool.true_and]
  rw [ofBitVec, List.range_succ, List.reverse_append, List.reverse_singleton, List.singleton_append,
    List.map_cons, hsign, hrest]

/-- The sign bit of a vector counts two to the power of the number of the other bits. -/
theorem toNat_succ {width : Nat} (x : BitVec (width + 1)) :
    x.toNat = x.msb.toNat * Nat.pow 2 width + (x.setWidth width).toNat := by
  have hcons : (BitVec.cons x.msb (x.setWidth width)).toNat =
      (x.msb.toNat <<< width) + (x.setWidth width).toNat := BitVec.toNat_cons'
  rw [BitVec.cons_msb_setWidth, Nat.shiftLeft_eq] at hcons
  exact hcons

/-- The row of two vectors side by side. -/
theorem ofBitVec_append {high low : Nat} (x : BitVec high) (y : BitVec low) :
    ofBitVec (x ++ y) = ofBitVec x ++ ofBitVec y := by
  have hplaces : (List.range (high + low)).reverse =
      (List.range high).reverse.map (low + ·) ++ (List.range low).reverse := by
    rw [Nat.add_comm, List.range_add, List.reverse_append, List.map_reverse]
  have hx : (List.range high).reverse.map ((x ++ y).getLsbD ∘ (low + ·)) = ofBitVec x := by
    refine map_places_eq fun place _ => ?_
    rw [Function.comp_apply, BitVec.getLsbD_append, if_neg (by omega), Nat.add_sub_cancel_left]
  have hy : (List.range low).reverse.map (x ++ y).getLsbD = ofBitVec y := by
    refine map_places_eq fun place hp => ?_
    rw [BitVec.getLsbD_append, if_pos hp]
  rw [ofBitVec, hplaces, List.map_append, List.map_map, hx, hy]

/-- Counting on with the row of a vector shifts the start by the width and adds the number of the
vector. -/
theorem count_ofBitVec {width : Nat} (start : Int) (x : BitVec width) :
    count start (ofBitVec x) = start * Nat.pow 2 width + x.toNat := by
  induction width generalizing start with
  | zero =>
    rw [BitVec.eq_nil x]
    simp [count, ofBitVec]
  | succ width ih =>
    have hcount : count start (ofBitVec x) =
        count (2 * start + x.msb.toNat) (ofBitVec (x.setWidth width)) := by
      rw [ofBitVec_succ, count, List.foldl_cons, count]
    have hp : Nat.pow 2 (width + 1) = Nat.pow 2 width * 2 := rfl
    rw [hcount, ih, toNat_succ x, hp]
    -- the start counts twice as much before the shorter row, and the sign bit once
    push_cast
    rw [Int.add_mul, Int.mul_comm 2 start, Int.mul_assoc, Int.mul_comm 2, Int.add_assoc]

/-- The row of a vector has the number of the vector. -/
theorem unsigned_ofBitVec {width : Nat} (x : BitVec width) :
    unsigned (ofBitVec x) = x.toNat := by
  rw [unsigned, count_ofBitVec, Int.zero_mul, Int.zero_add]

/-- The row of a vector has the number of the vector in two's complement. -/
theorem signed_ofBitVec {width : Nat} (x : BitVec width) : signed (ofBitVec x) = x.toInt := by
  cases width with
  | zero =>
    rw [BitVec.eq_nil x]
    rfl
  | succ width =>
    have hp : 2 ^ (width + 1) = Nat.pow 2 width * 2 := rfl
    rw [ofBitVec_succ, signed, count_ofBitVec, BitVec.toInt_eq_msb_cond, toNat_succ x, hp]
    cases x.msb with
    | false => simp
    | true => simp; omega

/-- The first of three bits takes four away in two's complement. -/
example : signed [true, false, true] = -3 := by decide

/-- Bit vectors with the same number are the same. -/
theorem eq_of_toNat {width : Nat} {x y : BitVec width} {value : Int}
    (hx : (x.toNat : Int) = value) (hy : (y.toNat : Int) = value) : x = y :=
  BitVec.eq_of_toNat_eq (Int.natCast_inj.1 (hx.trans hy.symm))

end Bits

/-- The bits of a word from one place down to another, both included. -/
def Word.bits (word : Word) (high low : Nat) : List Bool :=
  (List.range' low (high + 1 - low)).reverse.map word.getLsbD

/-- The row of a slice is that of its places in the word. -/
theorem Word.ofBitVec_slice (word : Word) {start length high : Nat}
    (h : high + 1 = start + length) :
    Bits.ofBitVec (word.extractLsb' start length) = word.bits high start := by
  have hlength : high + 1 - start = length := by omega
  have hplaces : (List.range length).reverse.map (word.getLsbD ∘ (start + ·)) =
      Bits.ofBitVec (word.extractLsb' start length) := by
    refine Bits.map_places_eq fun place hp => ?_
    rw [Function.comp_apply, BitVec.getLsbD_extractLsb', decide_eq_true hp, Bool.true_and]
  rw [Word.bits, hlength, List.range'_eq_map_range, ← List.map_reverse, List.map_map, hplaces]

/-- The number of places of a word without a sign. -/
def Word.number (word : Word) (high low : Nat) : Int := Bits.unsigned (word.bits high low)

/-- A field that a byte keeps has the number of its places in the word. -/
theorem Word.toNat_field (word : Word) (start length high : Nat) (h : high + 1 = start + length)
    (hl : length ≤ 8) :
    (((word.extractLsb' start length).setWidth 8).toNat : Int) = word.number high start := by
  rw [Word.number, ← word.ofBitVec_slice h, Bits.unsigned_ofBitVec, BitVec.toNat_setWidth_of_le hl]

/-! ### What a format finds in a word -/

/-- The bits of an immediate, most significant first, from where a format finds them in a word. -/
def Format.immediateBits (format : Format) (word : Word) : List Bool :=
  match format with
  | .R => []
  | .I => word.bits 31 20
  | .S => word.bits 31 25 ++ word.bits 11 7
  | .B => word.bits 31 31 ++ word.bits 7 7 ++ word.bits 30 25 ++ word.bits 11 8 ++ [false]
  | .U => word.bits 31 12 ++ List.replicate 12 false
  | .J => word.bits 31 31 ++ word.bits 19 12 ++ word.bits 20 20 ++ word.bits 30 21 ++ [false]

/-- The immediate of a word is the number of its bits in two's complement. -/
theorem Format.immediate_eq_signed (format : Format) (word : Word) :
    format.immediate word = Bits.signed (format.immediateBits word) := by
  have hzero : Bits.ofBitVec 0#1 = [false] := rfl
  have hzeros : Bits.ofBitVec 0#12 = List.replicate 12 false := rfl
  -- slices side by side are rows one behind the other, in the order of the table
  cases format
  case R => rfl
  all_goals
    simp (disch := rfl) only [immediate_eq_slices, immediateBits, ← Bits.signed_ofBitVec,
      Bits.ofBitVec_append, Word.ofBitVec_slice word, hzero, hzeros]

/-- The registers of a word are the numbers of their places, and zero where the format has none. -/
theorem Format.registers_split (format : Format) (word : Word) :
    ((format.split word).rd.toNat : Int) = (if .rd ∈ format.slots then word.number 11 7 else 0) ∧
      ((format.split word).rs1.toNat : Int) =
        (if .rs1 ∈ format.slots then word.number 19 15 else 0) ∧
      ((format.split word).rs2.toNat : Int) =
        (if .rs2 ∈ format.slots then word.number 24 20 else 0) := by
  have hrd := word.toNat_field 7 5 11 rfl (by decide)
  have hrs1 := word.toNat_field 15 5 19 rfl (by decide)
  have hrs2 := word.toNat_field 20 5 24 rfl (by decide)
  cases format
  case R => exact ⟨hrd, hrs1, hrs2⟩
  case I => exact ⟨hrd, hrs1, rfl⟩
  case S | B => exact ⟨rfl, hrs1, hrs2⟩
  case U | J => exact ⟨hrd, rfl, rfl⟩

/-! ### Which instruction the bits name -/

/-- The opcodes in a word are those of a row: the primary one always, the one of three bits where
the format has a place for it, and the one of seven bits in the format of three registers. -/
def Word.Matches (word : Word) (row : OpRow) : Prop :=
  word.number 6 0 = row.opcode.toNat ∧
    (row.format ∈ [.R, .I, .S, .B] → word.number 14 12 = row.funct3.toNat) ∧
    (row.format = .R → word.number 31 25 = row.funct7.toNat)

/-- The operation that a word stands for: two words have one of their own, one primary opcode has
one whatever the other bits are, and all others are found by their row. -/
def Word.Selects (word : Word) : Op → Prop
  | .rst => word = 0x0000007F
  | .halt => word = 0xFFFFFFFF
  | .rvrs => word.number 6 0 = 0b0000001
  -- no order is needed among the cases, since no row has the low seven bits of those above
  | op => word.Matches op.row

/-- An instruction is what the bits of a word say: the operation that the word selects in the format
of the operation, the word itself, the registers of the operation's slots at their places with zero
for the others, and the number of the bits of the immediate in two's complement. -/
structure Instruction.IsRead (instruction : Instruction) (word : Word) : Prop where
  /-- The operation. -/
  selects : word.Selects instruction.op
  /-- The layout. -/
  format : instruction.format = instruction.op.format
  /-- The word. -/
  raw : instruction.raw = word
  /-- The destination register. -/
  rd : (instruction.rd.toNat : Int) =
    if .rd ∈ instruction.op.slots then word.number 11 7 else 0
  /-- The first source register. -/
  rs1 : (instruction.rs1.toNat : Int) =
    if .rs1 ∈ instruction.op.slots then word.number 19 15 else 0
  /-- The second source register. -/
  rs2 : (instruction.rs2.toNat : Int) =
    if .rs2 ∈ instruction.op.slots then word.number 24 20 else 0
  /-- The immediate. -/
  imm : instruction.imm.toInt = Bits.signed (instruction.op.format.immediateBits word)

/-- A field of a word is a given byte exactly if its places have the number of the byte. -/
theorem Word.field_eq_iff (word : Word) (start length high : Nat) (h : high + 1 = start + length)
    (hl : length ≤ 8) (value : Byte) :
    value = (word.extractLsb' start length).setWidth 8 ↔
      word.number high start = (value.toNat : Int) := by
  rw [← word.toNat_field start length high h hl, Int.natCast_inj, BitVec.toNat_inj, eq_comm]

/-- The low seven bits of a word are its primary opcode. -/
theorem Word.opcode_eq_iff (word : Word) {value : Byte} :
    (Format.R.split word).opcode = value ↔ word.number 6 0 = (value.toNat : Int) := by
  rw [eq_comm]
  exact word.field_eq_iff 0 7 6 rfl (by decide) value

/-- The row of a regular operation matches a word exactly if the opcodes of the word select the
operation. -/
theorem Word.matches_row_iff (word : Word) (op : Op) :
    word.Matches op.row ↔ op.selectedBy (Format.R.split word).opcode (Format.R.split word).funct3
      (Format.R.split word).funct7 = true := by
  have hopcode := word.field_eq_iff 0 7 6 rfl (by decide) op.row.opcode
  have hfunct3 := word.field_eq_iff 12 3 14 rfl (by decide) op.row.funct3
  have hfunct7 := word.field_eq_iff 25 7 31 rfl (by decide) op.row.funct7
  have hformat : op.format = op.row.format := rfl
  rw [Matches, Op.selectedBy, hformat, ← hopcode, ← hfunct3, ← hfunct7]
  cases op.row.format <;> simp [Format.split]

/-- The slots of a regular operation are those of its format. -/
theorem Op.mem_slots_iff {op : Op} (hr : op ∈ regular) (slot : Slot) :
    slot ∈ op.slots ↔ slot ∈ op.format.slots := by
  cases op
  case rst | halt | rvrs => exact absurd hr (by decide)
  case lw => cases slot <;> decide
  all_goals rfl

/-- A regular operation is selected by the words that its row matches. -/
theorem Word.selects_iff_matches {op : Op} (hr : op ∈ Op.regular) {word : Word} :
    word.Selects op ↔ word.Matches op.row := by
  cases op
  case rst | halt | rvrs => exact absurd hr (by decide)
  all_goals rfl

namespace Instruction

/-- Operation and bits leave one instruction. -/
theorem IsRead.unique {word : Word} {instruction other : Instruction}
    (h : instruction.IsRead word) (h' : other.IsRead word) (ho : instruction.op = other.op) :
    instruction = other := by
  cases instruction with
  | mk op format raw rd rs1 rs2 imm =>
    cases other with
    | mk op' format' raw' rd' rs1' rs2' imm' =>
      cases ho
      have hformat : format = format' := h.format.trans h'.format.symm
      have hraw : raw = raw' := h.raw.trans h'.raw.symm
      have hrd : rd = rd' := Bits.eq_of_toNat h.rd h'.rd
      have hrs1 : rs1 = rs1' := Bits.eq_of_toNat h.rs1 h'.rs1
      have hrs2 : rs2 = rs2' := Bits.eq_of_toNat h.rs2 h'.rs2
      have himm : imm = imm' := BitVec.eq_of_toInt_eq (h.imm.trans h'.imm.symm)
      rw [hformat, hraw, hrd, hrs1, hrs2, himm]

/-- What a word with the opcodes of a regular operation is read as is what its bits say. -/
theorem isRead_reading {op : Op} (hr : op ∈ Op.regular) {word : Word} (hs : word.Selects op) :
    (reading op word).IsRead word where
  selects := hs
  format := rfl
  raw := rfl
  rd := by
    simp only [reading, Op.mem_slots_iff hr]
    exact (op.format.registers_split word).1
  rs1 := by
    simp only [reading, Op.mem_slots_iff hr]
    exact (op.format.registers_split word).2.1
  rs2 := by
    simp only [reading, Op.mem_slots_iff hr]
    exact (op.format.registers_split word).2.2
  imm := by
    rw [toInt_imm_reading, Format.imm_split, Format.immediate_eq_signed]
    rfl

/-- A reversal is what its bits say. -/
theorem isRead_reversal {word : Word} (hs : word.Selects .rvrs) : (reversal word).IsRead word where
  selects := hs
  format := rfl
  raw := rfl
  rd := (Format.R.registers_split word).1
  rs1 := (Format.R.registers_split word).2.1
  rs2 := rfl
  imm := rfl

/-- A word is read as the operation that it selects, by what its bits say. -/
theorem ofWord?_of_selects {word : Word} {op : Op} (hs : word.Selects op) :
    ∃ instruction, ofWord? word = some instruction ∧ instruction.op = op ∧
      instruction.IsRead word := by
  by_cases hr : op ∈ Op.regular
  case pos =>
    have hm := (Word.selects_iff_matches hr).1 hs
    have hheads := (Op.selectedBy_iff_heads hr word).1 ((word.matches_row_iff op).1 hm)
    exact ⟨reading op word, ofWord?_of_heads hr hheads, rfl, isRead_reading hr hs⟩
  case neg =>
    cases op
    case rst =>
      have hw : word = 0x0000007F := hs
      subst hw
      exact ⟨_, rfl, rfl, ⟨rfl, rfl, rfl, rfl, rfl, rfl, rfl⟩⟩
    case halt =>
      have hw : word = 0xFFFFFFFF := hs
      subst hw
      exact ⟨_, rfl, rfl, ⟨rfl, rfl, rfl, rfl, rfl, rfl, rfl⟩⟩
    case rvrs =>
      have ho : (Format.R.split word).opcode = Op.rvrs.row.opcode := word.opcode_eq_iff.2 hs
      exact ⟨reversal word, ofWord?_of_reversal ho, rfl, isRead_reversal hs⟩
    all_goals exact absurd (by decide) hr

/-- A word that stands for an instruction selects its operation. -/
theorem selects_of_ofWord? {word : Word} {instruction : Instruction}
    (h : ofWord? word = some instruction) : word.Selects instruction.op := by
  rcases cases_of_ofWord? h with ⟨hw, rfl⟩ | ⟨hw, rfl⟩ | ⟨ho, rfl⟩ | ⟨op, hr, hh, rfl⟩
  · exact hw
  · exact hw
  · exact word.opcode_eq_iff.1 ho
  · have hm := (word.matches_row_iff op).2 ((Op.selectedBy_iff_heads hr word).2 hh)
    exact (Word.selects_iff_matches hr).2 hm

/-- A word stands for an instruction exactly if its bits say so. -/
theorem ofWord?_eq_some_iff {word : Word} {instruction : Instruction} :
    ofWord? word = some instruction ↔ instruction.IsRead word := by
  constructor
  · intro h
    obtain ⟨other, hother, -, hread⟩ := ofWord?_of_selects (selects_of_ofWord? h)
    have hsame : other = instruction := Option.some.inj (hother.symm.trans h)
    exact hsame ▸ hread
  · intro h
    obtain ⟨other, hother, ho, hread⟩ := ofWord?_of_selects h.selects
    rw [hother, hread.unique h ho]

/-- Decoding is by the bits of the word alone. A word stands for an instruction exactly if the bits
say so, it stands for one with a given operation exactly if it selects the operation, and it
selects at most one. -/
theorem ofWord?_by_bits (word : Word) :
    (∀ instruction, ofWord? word = some instruction ↔ instruction.IsRead word) ∧
      (∀ op, (∃ instruction, ofWord? word = some instruction ∧ instruction.op = op) ↔
        word.Selects op) ∧
      ∀ op op', word.Selects op ∧ word.Selects op' → op = op' := by
  refine ⟨fun instruction => ofWord?_eq_some_iff, fun op => ⟨?_, ?_⟩, ?_⟩
  · rintro ⟨instruction, h, rfl⟩
    exact selects_of_ofWord? h
  · intro hs
    obtain ⟨instruction, h, ho, -⟩ := ofWord?_of_selects hs
    exact ⟨instruction, h, ho⟩
  · rintro op op' ⟨hs, hs'⟩
    obtain ⟨instruction, h, rfl, -⟩ := ofWord?_of_selects hs
    obtain ⟨other, hother, rfl, -⟩ := ofWord?_of_selects hs'
    exact congrArg op (Option.some.inj (h.symm.trans hother))

end Instruction

end MiniRisc
