import MiniRisc.Proofs.Agreement
import MiniRisc.Proofs.Tokens

/-!
# The text of an instruction is read back

Every token of a written instruction says what the word holds in its slot, so the assembler makes
the word again. Two operations have words that differ only where nothing is read or where the
layout of jumps loses a bit; of these the assembler makes one and the same word.
-/

namespace MiniRisc

/-- The word that is made of the text of an instruction. A reversal has bits that nothing reads,
and a jump has its bit 20 overwritten with bit 30. -/
def Word.canonical (word : Word) : Word :=
  if word.extractLsb' 0 7 = 0x01#7 then
    0#12 ++ word.extractLsb' 15 5 ++ 0#3 ++ word.extractLsb' 0 12
  else if word.extractLsb' 0 7 = 0x6F#7 then
    word.extractLsb' 21 11 ++ word.extractLsb' 30 1 ++ word.extractLsb' 0 20
  else word

namespace Instruction

/-- The fields that a word keeps in the format of its operation are those that the operation
starts with, with the places of its slots taken from the word. -/
theorem split_eq_foldl_copy {op : Op} (hr : op ∈ Op.regular) {word : Word}
    (h : op.Heads (op.format.split word)) :
    op.format.split word = op.slots.foldl (op.format.split word).copy op.bareFields := by
  have hn : op ≠ .halt := by
    rintro rfl
    exact absurd hr (by decide)
  have hb : op.bareFields =
      { opcode := (op.format.split word).opcode, funct3 := (op.format.split word).funct3
        funct7 := (op.format.split word).funct7 } := by
    rw [Op.bareFields, if_neg hn, h.1, h.2.1, h.2.2]
  rw [hb]
  cases op
  case rst | halt | rvrs => exact absurd hr (by decide)
  all_goals rfl

/-- A token of a regular instruction says what its word holds in the slot. -/
theorem fills_token (site : Site) (op : Op) (word : Word) (slot : Slot) :
    site.Fills (op.format.split word) slot ((reading op word).token slot) := by
  obtain ⟨hd, h1, h2⟩ := lt_of_split op.format word
  cases slot
  case rd => exact Register.ofName?_name hd
  case rs1 => exact Register.ofName?_name h1
  case rs2 => exact Register.ofName?_name h2
  case imm =>
    refine .inl ?_
    rw [← toInt_imm_reading op word]
    exact Immediate.ofToken?_signedDecimal _

/-- A word is canonical up to what its format does not restore. -/
theorem canonical_of_heads {op : Op} (hr : op ∈ Op.regular) {word : Word}
    (h : op.Heads (op.format.split word)) : word.canonical = op.format.restored word := by
  have ho : word.extractLsb' 0 7 = op.row.opcode.setWidth 7 := by
    rw [← h.1]
    cases op.format <;> exact (cut_byte _ (by decide)).symm
  unfold Word.canonical
  rw [ho]
  cases op
  case rst | halt | rvrs => exact absurd hr (by decide)
  all_goals rfl

/-- The canonical word of a reversal holds its two registers and nothing else. -/
theorem canonical_of_reversal {word : Word}
    (h : (Format.R.split word).opcode = Op.rvrs.row.opcode) :
    word.canonical = Format.R.place (reversalFields word) 0 := by
  have ho : word.extractLsb' 0 7 = 0x01#7 := by
    rw [← cut_byte (word.extractLsb' 0 7) (by decide)]
    exact congrArg (BitVec.setWidth 7) h
  have ha : word.extractLsb' 7 5 ++ word.extractLsb' 0 7 = word.extractLsb' 0 (5 + 7) :=
    BitVec.extractLsb'_append_extractLsb'_eq_extractLsb' rfl
  have hl : word.extractLsb' 0 12 = word.extractLsb' 7 5 ++ 0x01#7 := (ho ▸ ha).symm
  rw [Word.canonical, if_pos ho, hl]
  apply BitVec.eq_of_toNat_eq
  simp only [Format.place, reversalFields, Format.split, Op.row, cut_byte, Nat.reduceLeDiff,
    toNat_append_add]
  simp only [Nat.pow_eq, Nat.reduceAdd, Nat.reducePow, BitVec.reduceSetWidth, BitVec.reduceToNat]
  omega

/-- The words of all operations but reversals and jumps are canonical. -/
theorem canonical_eq_self {word : Word} {instruction : Instruction}
    (h : ofWord? word = some instruction) (hr : instruction.op ≠ .rvrs)
    (hj : instruction.op ≠ .jal) : word.canonical = word := by
  obtain ⟨rfl, rfl⟩ | ⟨rfl, rfl⟩ | ⟨ho, rfl⟩ | ⟨op, hop, hh, rfl⟩ := cases_of_ofWord? h
  · decide
  · decide
  · exact absurd rfl hr
  · rw [canonical_of_heads hop hh]
    cases op
    case jal => exact absurd rfl hj
    all_goals rfl

/-- A word that was made from operands is canonical. -/
theorem canonical_of_fields {site : Site} {op : Op} {operands : List String} {fields : Fields}
    (hf : site.fields op operands = .ok fields) {word : Word}
    (hw : op.format.join fields = .ok word) : word.canonical = word := by
  by_cases hr : op ∈ Op.regular
  · have hs := Format.split_join hw
    have hh := Op.heads_kept hr (Site.heads_of_fields hf)
    rw [canonical_of_heads hr (hs ▸ hh), Format.restored_of_join hw]
  · by_cases hrvrs : op = .rvrs
    · subst hrvrs
      obtain ⟨d, s, -, -, -, ho, he⟩ := Site.reversal_of_fields hf hw
      have hplace : Format.R.place fields 0 = word := Except.ok.inj hw
      rw [canonical_of_reversal ho, he, hplace]
    · obtain ⟨instruction, hi, ho, -, -⟩ := Site.ofWord?_of_fields hf hw
      have hjal : op ≠ .jal := fun h => hr (h ▸ by decide)
      exact canonical_eq_self hi (ho ▸ hrvrs) (ho ▸ hjal)

end Instruction

namespace Site

/-- The mnemonic of an operation with accepted operands is encoded. -/
theorem encode_mnemonic {site : Site} {op : Op} {operands : List String} {fields : Fields}
    (hf : site.fields op operands = .ok fields) {word : Word}
    (hw : op.format.join fields = .ok word) :
    site.encode (op.mnemonic :: operands) = .ok ⟨word, site.loss? op fields word⟩ := by
  refine encode_eq_ok_iff.2 ⟨_, _, op, fields, word, rfl, ?_, hf, hw, rfl⟩
  rw [(Op.mnemonic_spec op).2, Op.named?_mnemonic]

/-- Operands that say what a word holds make the word again, up to what its format does not
restore. -/
theorem encode_of_fills {site : Site} {op : Op} (hr : op ∈ Op.regular) {word : Word}
    (hh : op.Heads (op.format.split word)) {operands : List String}
    (h : List.Forall₂ (site.Fills (op.format.split word)) op.slots operands) :
    ∃ encoded, site.encode (op.mnemonic :: operands) = .ok encoded ∧
      encoded.word = word.canonical := by
  have hf : site.fields op operands = .ok (op.format.split word) :=
    fields_eq_ok_iff.2 ⟨h, Instruction.split_eq_foldl_copy hr hh⟩
  exact ⟨_, encode_mnemonic hf (Format.join_split op.format word),
    (Instruction.canonical_of_heads hr hh).symm⟩

/-- An operation without operands is encoded as the word of what it starts with. -/
theorem encode_bare (site : Site) {op : Op} (hs : op.slots = []) {word : Word}
    (hw : op.format.join op.bareFields = .ok word) :
    ∃ encoded, site.encode [op.mnemonic] = .ok encoded ∧ encoded.word = word := by
  have hf : site.fields op [] = .ok op.bareFields := by
    rw [fields_eq_ok_iff, hs]
    exact ⟨.nil, rfl⟩
  exact ⟨_, encode_mnemonic hf hw, rfl⟩

/-- The text of a reversal makes the word without the bits that nothing reads. -/
theorem encode_reversal (site : Site) {word : Word}
    (h : (Format.R.split word).opcode = Op.rvrs.row.opcode) :
    ∃ encoded, site.encode (tokensOfText (Instruction.reversal word).text) = .ok encoded ∧
      encoded.word = word.canonical := by
  obtain ⟨hd, hs, -⟩ := Instruction.lt_of_split .R word
  have hf : site.fields .rvrs ((Op.slots .rvrs).map (Instruction.reversal word).token) =
      .ok (Instruction.reversalFields word) := by
    refine fields_eq_ok_iff.2 ⟨.cons ?_ (.cons ?_ .nil), rfl⟩
    · exact Register.ofName?_name hd
    · exact Register.ofName?_name hs
  rw [Instruction.tokensOfText_text]
  exact ⟨_, encode_mnemonic hf rfl, (Instruction.canonical_of_reversal h).symm⟩

/-- The text of every instruction is encoded wherever it stands, as the canonical word. -/
theorem encode_text (site : Site) {word : Word} {instruction : Instruction}
    (h : Instruction.ofWord? word = some instruction) :
    ∃ encoded, site.encode (tokensOfText instruction.text) = .ok encoded ∧
      encoded.word = word.canonical := by
  obtain ⟨rfl, rfl⟩ | ⟨rfl, rfl⟩ | ⟨ho, rfl⟩ | ⟨op, hr, hh, rfl⟩ :=
    Instruction.cases_of_ofWord? h
  · have hj : Op.rst.format.join Op.rst.bareFields = .ok Word.reset.canonical := by decide
    rw [Instruction.tokensOfText_text]
    exact encode_bare site rfl hj
  · have hj : Op.halt.format.join Op.halt.bareFields = .ok Word.halt.canonical := by decide
    rw [Instruction.tokensOfText_text]
    exact encode_bare site rfl hj
  · exact encode_reversal site ho
  · have ho : List.Forall₂ (site.Fills (op.format.split word)) op.slots
        (op.slots.map (Instruction.reading op word).token) :=
      List.forall₂_map_right_iff.2 (List.forall₂_same.2 fun slot _ =>
        Instruction.fills_token site op word slot)
    rw [Instruction.tokensOfText_text]
    exact encode_of_fills hr hh ho

/-- The text of every instruction is encoded wherever it stands, as the word that it was read from
but for the bits of a reversal that nothing reads and the bit that a jump overwrites. -/
theorem encode_written {word : Word} {instruction : Instruction}
    (h : Instruction.ofWord? word = some instruction) (site : Site) :
    ∃ encoded, site.encode (tokensOfText word.written) = .ok encoded ∧
      encoded.word = word.canonical ∧
      (instruction.op ≠ .rvrs → instruction.op ≠ .jal → encoded.word = word) := by
  have hw : word.written = instruction.text := by rw [Word.written, h]
  obtain ⟨encoded, he, hc⟩ := encode_text site h
  exact ⟨encoded, hw ▸ he, hc, fun hr hj => hc.trans (Instruction.canonical_eq_self h hr hj)⟩

/-- A jump ahead by 2048 is written as such, and the word that is made of its text jumps nowhere. -/
theorem encode_written_jump :
    Instruction.ofWord? 0x0010006F =
        some { op := .jal, format := .J, raw := 0x0010006F, imm := 2048 } ∧
      ∃ encoded, Site.encode ⟨64, []⟩ (tokensOfText (Word.written 0x0010006F)) = .ok encoded ∧
        encoded.word = 0x0000006F ∧
        (Op.jal ≠ .rvrs → Op.jal ≠ .jal → encoded.word = 0x0010006F) := by
  have h : Instruction.ofWord? 0x0010006F =
      some { op := .jal, format := .J, raw := 0x0010006F, imm := 2048 } := by decide
  have hcanonical : Word.canonical 0x0010006F = 0x0000006F := by decide
  obtain ⟨encoded, he, hc, hs⟩ := encode_written h ⟨64, []⟩
  exact ⟨h, encoded, he, hc.trans hcanonical, hs⟩

end Site

end MiniRisc
