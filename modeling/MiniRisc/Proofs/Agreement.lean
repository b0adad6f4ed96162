import MiniRisc.Proofs.Operands

/-!
# The assembler and the machine read an instruction alike

What the tokens of an accepted instruction say is what is read from its word. The operation is the
one that is named, every register is the one that its operand names, and the immediate is what the
format stores of the integer that its operand stands for.
-/

namespace MiniRisc

namespace Register

/-- A register with a name has one of the thirty-two numbers. -/
theorem lt_of_ofName? {token : String} {number : Byte} (h : ofName? token = some number) :
    number.toNat < 32 := by
  unfold ofName? at h
  split at h
  · obtain rfl := Option.some.inj h
    decide
  · obtain ⟨place, hp, rfl⟩ := Option.map_eq_some_iff.1 h
    have hl : place < names.length := (List.findIdx?_eq_some_iff_findIdx_eq.1 hp).1
    have hn : names.length = 32 := rfl
    rw [BitVec.toNat_ofNat]
    omega

/-- A register with a name is not changed by the five bits that keep it. -/
theorem cut_of_ofName? {token : String} {number : Byte} (h : ofName? token = some number) :
    (number.setWidth 5).setWidth 8 = number := by
  have hl := lt_of_ofName? h
  apply BitVec.eq_of_toNat_eq
  simp only [BitVec.toNat_setWidth, Nat.reducePow]
  omega

end Register

namespace Site

/-- The immediate of an instruction is what its format stores of the integer that a token stands
for. -/
def Offers (site : Site) (instruction : Instruction) (token : String) : Prop :=
  ∃ value, site.Denotes token value ∧
    instruction.imm.toInt = instruction.op.format.stored value

/-- An instruction is the one that operands spell in their written order. Registers without an
operand are zero, and so is the immediate where there is none. -/
def Spells (site : Site) (operands : List String) (instruction : Instruction) : Prop :=
  match instruction.op with
  | .rst | .halt =>
    operands = [] ∧ instruction.rd = 0 ∧ instruction.rs1 = 0 ∧ instruction.rs2 = 0 ∧
      instruction.imm = 0
  | .rvrs =>
    ∃ d s, operands = [d, s] ∧ Register.ofName? d = some instruction.rd ∧
      Register.ofName? s = some instruction.rs1 ∧ instruction.rs2 = 0 ∧ instruction.imm = 0
  | .lw =>
    ∃ d i s, operands = [d, i, s] ∧ Register.ofName? d = some instruction.rd ∧
      Register.ofName? s = some instruction.rs1 ∧ instruction.rs2 = 0 ∧ site.Offers instruction i
  | op =>
    match op.format with
    | .R =>
      ∃ d s t, operands = [d, s, t] ∧ Register.ofName? d = some instruction.rd ∧
        Register.ofName? s = some instruction.rs1 ∧ Register.ofName? t = some instruction.rs2 ∧
        instruction.imm = 0
    | .I =>
      ∃ d s i, operands = [d, s, i] ∧ Register.ofName? d = some instruction.rd ∧
        Register.ofName? s = some instruction.rs1 ∧ instruction.rs2 = 0 ∧ site.Offers instruction i
    | .S =>
      ∃ t i s, operands = [t, i, s] ∧ Register.ofName? t = some instruction.rs2 ∧
        Register.ofName? s = some instruction.rs1 ∧ instruction.rd = 0 ∧ site.Offers instruction i
    | .B =>
      ∃ s t i, operands = [s, t, i] ∧ Register.ofName? s = some instruction.rs1 ∧
        Register.ofName? t = some instruction.rs2 ∧ instruction.rd = 0 ∧ site.Offers instruction i
    | .U | .J =>
      ∃ d i, operands = [d, i] ∧ Register.ofName? d = some instruction.rd ∧ instruction.rs1 = 0 ∧
        instruction.rs2 = 0 ∧ site.Offers instruction i

/-- The opcodes of accepted fields are those of the operation. -/
theorem heads_of_fields {site : Site} {op : Op} {operands : List String} {fields : Fields}
    (h : site.fields op operands = .ok fields) : op.Heads fields := by
  rw [(fields_eq_ok_iff.1 h).2]
  exact Op.heads_foldl_copy fields op.slots ⟨rfl, rfl, rfl⟩

/-- The instruction of a regular operation is the one that its operands spell. -/
theorem spells_reading {site : Site} {op : Op} (hr : op ∈ Op.regular) {operands : List String}
    {fields : Fields} (hf : site.fields op operands = .ok fields) {word : Word}
    (hw : op.format.join fields = .ok word) :
    site.Spells operands (Instruction.reading op word) := by
  have hs := (Instruction.ofWord?_join hr (heads_of_fields hf) hw).2
  have hi := Instruction.toInt_imm_reading op word
  have ho := (fields_eq_ok_iff.1 hf).1
  rw [hs] at hi
  have hplaces : (Instruction.reading op word).rd = (op.format.kept fields).rd ∧
      (Instruction.reading op word).rs1 = (op.format.kept fields).rs1 ∧
      (Instruction.reading op word).rs2 = (op.format.kept fields).rs2 := by
    rw [← hs]
    exact ⟨rfl, rfl, rfl⟩
  obtain ⟨hrd, hrs1, hrs2⟩ := hplaces
  cases op
  case rst | halt | rvrs => exact absurd hr (by decide)
  all_goals
    simp only [Op.slots, Op.slotsIn, Op.format, Op.row, Format.slots, Fills, Format.kept,
      List.forall₂_cons_left_iff, List.forall₂_nil_left_iff] at ho hrd hrs1 hrs2 hi
  case add | sub | sll | slt | sltu | xor | srl | or | and | mul =>
    obtain ⟨d, _, hd, ⟨s, _, hs1, ⟨t, _, ht, rfl, rfl⟩, rfl⟩, rfl⟩ := ho
    rw [Register.cut_of_ofName? hd] at hrd
    rw [Register.cut_of_ofName? hs1] at hrs1
    rw [Register.cut_of_ofName? ht] at hrs2
    exact ⟨d, s, t, rfl, hrd ▸ hd, hrs1 ▸ hs1, hrs2 ▸ ht, rfl⟩
  case lw =>
    obtain ⟨d, _, hd, ⟨i, _, hv, ⟨s, _, hs1, rfl, rfl⟩, rfl⟩, rfl⟩ := ho
    rw [Register.cut_of_ofName? hd] at hrd
    rw [Register.cut_of_ofName? hs1] at hrs1
    exact ⟨d, i, s, rfl, hrd ▸ hd, hrs1 ▸ hs1, hrs2, fields.imm, hv, hi⟩
  case addi | sltiu | jalr =>
    obtain ⟨d, _, hd, ⟨s, _, hs1, ⟨i, _, hv, rfl, rfl⟩, rfl⟩, rfl⟩ := ho
    rw [Register.cut_of_ofName? hd] at hrd
    rw [Register.cut_of_ofName? hs1] at hrs1
    exact ⟨d, s, i, rfl, hrd ▸ hd, hrs1 ▸ hs1, hrs2, fields.imm, hv, hi⟩
  case sw =>
    obtain ⟨t, _, ht, ⟨i, _, hv, ⟨s, _, hs1, rfl, rfl⟩, rfl⟩, rfl⟩ := ho
    rw [Register.cut_of_ofName? ht] at hrs2
    rw [Register.cut_of_ofName? hs1] at hrs1
    exact ⟨t, i, s, rfl, hrs2 ▸ ht, hrs1 ▸ hs1, hrd, fields.imm, hv, hi⟩
  case beq | bne | blt | bge | bltu | bgeu =>
    obtain ⟨s, _, hs1, ⟨t, _, ht, ⟨i, _, hv, rfl, rfl⟩, rfl⟩, rfl⟩ := ho
    rw [Register.cut_of_ofName? hs1] at hrs1
    rw [Register.cut_of_ofName? ht] at hrs2
    exact ⟨s, t, i, rfl, hrs1 ▸ hs1, hrs2 ▸ ht, hrd, fields.imm, hv, hi⟩
  case lui | auipc | jal =>
    obtain ⟨d, _, hd, ⟨i, _, hv, rfl, rfl⟩, rfl⟩ := ho
    rw [Register.cut_of_ofName? hd] at hrd
    exact ⟨d, i, rfl, hrd ▸ hd, hrs1, hrs2, fields.imm, hv, hi⟩

/-- An operation without slots takes no operands, and its word is that of what it starts with. -/
theorem bare_of_fields {site : Site} {op : Op} (hs : op.slots = []) {operands : List String}
    {fields : Fields} (hf : site.fields op operands = .ok fields) {word bare : Word}
    (hw : op.format.join fields = .ok word) (hb : op.format.join op.bareFields = .ok bare) :
    operands = [] ∧ word = bare := by
  obtain ⟨ho, he⟩ := fields_eq_ok_iff.1 hf
  rw [hs] at ho he
  have hj : (Except.ok word : Except RangeError Word) = .ok bare := by
    rw [← hw, ← hb, he]
    rfl
  exact ⟨List.forall₂_nil_left_iff.1 ho, Except.ok.inj hj⟩

/-- The operands of a reversal name its two registers, which are all that its word holds. -/
theorem reversal_of_fields {site : Site} {operands : List String} {fields : Fields}
    (hf : site.fields .rvrs operands = .ok fields) {word : Word}
    (hw : Op.rvrs.format.join fields = .ok word) :
    ∃ d s, operands = [d, s] ∧ Register.ofName? d = some fields.rd ∧
      Register.ofName? s = some fields.rs1 ∧
      (Format.R.split word).opcode = Op.rvrs.row.opcode ∧
      Instruction.reversalFields word = fields := by
  obtain ⟨ho, he⟩ := fields_eq_ok_iff.1 hf
  have hk : Format.R.split word = Format.R.kept fields := Format.split_join hw
  simp only [Op.slots, Op.slotsIn, Fills, List.forall₂_cons_left_iff,
    List.forall₂_nil_left_iff] at ho
  obtain ⟨d, _, hd, ⟨s, _, hs, rfl, rfl⟩, rfl⟩ := ho
  have hopcode : fields.opcode = Op.rvrs.row.opcode := congrArg Fields.opcode he
  have hrd : (Format.R.kept fields).rd = fields.rd := Register.cut_of_ofName? hd
  have hrs1 : (Format.R.kept fields).rs1 = fields.rs1 := Register.cut_of_ofName? hs
  refine ⟨d, s, rfl, hd, hs, ?_, ?_⟩
  · rw [hk, Format.kept, hopcode]
    rfl
  · rw [Instruction.reversalFields, hk, hrd, hrs1]
    exact he.symm

/-- The word of an accepted instruction is read as the operation and as what its operands spell. -/
theorem ofWord?_of_fields {site : Site} {op : Op} {operands : List String} {fields : Fields}
    (hf : site.fields op operands = .ok fields) {word : Word}
    (hw : op.format.join fields = .ok word) :
    ∃ instruction, Instruction.ofWord? word = some instruction ∧ instruction.op = op ∧
      instruction.format = op.format ∧ site.Spells operands instruction := by
  by_cases hr : op ∈ Op.regular
  · have hi := (Instruction.ofWord?_join hr (heads_of_fields hf) hw).1
    exact ⟨Instruction.reading op word, hi, rfl, rfl, spells_reading hr hf hw⟩
  · cases op
    case rst =>
      have hb : Op.rst.format.join Op.rst.bareFields = .ok Word.reset := by decide
      have hi : Instruction.ofWord? Word.reset =
          some { op := .rst, format := .R, raw := Word.reset } := by decide
      obtain ⟨rfl, rfl⟩ := bare_of_fields rfl hf hw hb
      exact ⟨_, hi, rfl, rfl, rfl, rfl, rfl, rfl, rfl⟩
    case halt =>
      have hb : Op.halt.format.join Op.halt.bareFields = .ok Word.halt := by decide
      have hi : Instruction.ofWord? Word.halt =
          some { op := .halt, format := .R, raw := Word.halt } := by decide
      obtain ⟨rfl, rfl⟩ := bare_of_fields rfl hf hw hb
      exact ⟨_, hi, rfl, rfl, rfl, rfl, rfl, rfl, rfl⟩
    case rvrs =>
      obtain ⟨d, s, rfl, hd, hs, ho, rfl⟩ := reversal_of_fields hf hw
      exact ⟨_, Instruction.ofWord?_of_reversal ho, rfl, rfl, d, s, rfl, hd, hs, rfl, rfl⟩
    all_goals exact absurd (by decide) hr

/-- Whatever is encoded is read back from its word as what the tokens say: the operation that the
first names, and in every place the register or the immediate that the operands spell. -/
theorem instruction_of_encode {site : Site} {tokens : List String} {encoded : Encoded}
    (h : site.encode tokens = .ok encoded) :
    ∃ first operands op instruction, tokens = first :: operands ∧
      Op.named? first.toLower = some op ∧
      Instruction.ofWord? encoded.word = some instruction ∧ instruction.raw = encoded.word ∧
      instruction.op = op ∧ instruction.format = op.format ∧ site.Spells operands instruction := by
  obtain ⟨first, operands, op, fields, word, rfl, hn, hf, hw, rfl⟩ := encode_eq_ok_iff.1 h
  obtain ⟨instruction, hi, ho, hfo, hs⟩ := ofWord?_of_fields hf hw
  exact ⟨first, operands, op, instruction, rfl, hn, hi, Instruction.raw_of_ofWord? hi, ho, hfo, hs⟩

/-- A jump back by 2048 is accepted with a loss, and is read as a jump back by 4096. -/
theorem instruction_of_encode_jump :
    Site.encode ⟨2048, [("loop", 0)]⟩ ["JAL", "ra", "loop"] =
        .ok ⟨0x800FF0EF, some ⟨.jal, 2048, -2048, -4096⟩⟩ ∧
      ∃ first operands op instruction, ["JAL", "ra", "loop"] = first :: operands ∧
        Op.named? first.toLower = some op ∧
        Instruction.ofWord? 0x800FF0EF = some instruction ∧ instruction.raw = 0x800FF0EF ∧
        instruction.op = op ∧ instruction.format = op.format ∧
        Site.Spells ⟨2048, [("loop", 0)]⟩ operands instruction := by
  have h : Site.encode ⟨2048, [("loop", 0)]⟩ ["JAL", "ra", "loop"] =
      .ok ⟨0x800FF0EF, some ⟨.jal, 2048, -2048, -4096⟩⟩ := by decide +kernel
  exact ⟨h, instruction_of_encode h⟩

end Site

end MiniRisc
