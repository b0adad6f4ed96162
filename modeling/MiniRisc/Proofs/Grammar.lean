import MiniRisc.Proofs.Numerals
import MiniRisc.Proofs.Operands

/-!
# The grammar of instructions

An instruction is a mnemonic and as many operands as its operation has parts, each of which fits
its part: the name of a register, or an integer in the signed range of a width. Tokens are encoded
exactly if they are an instruction, and otherwise the error names something that is wrong with them.
-/

namespace MiniRisc

/-- What an operand of an instruction is. -/
inductive Part where
  /-- The name of a register. -/
  | register
  /-- An integer in the signed range of a width, as a number or as a label. -/
  | immediate (width : Nat)
deriving DecidableEq, Repr

/-- The parts of an operation behind its mnemonic, in the order in which they are written. -/
def Op.parts : Op → List Part
  | .rst | .halt => []
  | .rvrs => [.register, .register]
  | .add | .sub | .sll | .slt | .sltu | .xor | .srl | .or | .and | .mul =>
    [.register, .register, .register]
  | .addi | .sltiu | .jalr => [.register, .register, .immediate 12]
  | .lw | .sw => [.register, .immediate 12, .register]
  | .beq | .bne | .blt | .bge | .bltu | .bgeu => [.register, .register, .immediate 16]
  | .lui | .auipc => [.register, .immediate 32]
  | .jal => [.register, .immediate 21]

/-- A token is the name of a register: one of the thirty-two, or that of the frame pointer. -/
def Register.IsName (token : String) : Prop := token = "fp" ∨ token ∈ names

instance (token : String) : Decidable (Register.IsName token) := inferInstanceAs (Decidable (_ ∨ _))

/-- An integer is in the signed range of a width. -/
def Part.InRange (width : Nat) (n : Int) : Prop := -2 ^ (width - 1) ≤ n ∧ n < 2 ^ (width - 1)

instance (width : Nat) (n : Int) : Decidable (Part.InRange width n) :=
  inferInstanceAs (Decidable (_ ∧ _))

/-- The nearest integer of 64 bits. -/
def Immediate.saturated (n : Int) : Int := max (-2 ^ 63) (min n (2 ^ 63 - 1))

namespace Site

/-- A token stands at a site for an integer of any size: the one that it denotes if it is a numeral,
and the distance from the instruction to the label otherwise. -/
inductive StandsFor (site : Site) (token : String) : Int → Prop
  /-- A number. -/
  | numeral {n : Int} (h : Immediate.Numeral token.toList n) : StandsFor site token n
  /-- A label. -/
  | label {target : Word} (hn : ¬ ∃ n, Immediate.Numeral token.toList n)
      (ht : site.labels.address? token = some target) :
    StandsFor site token ((target.toNat : Int) - (site.address.toNat : Int))

/-- A token fits a part of an instruction. -/
def Admits (site : Site) : Part → String → Prop
  | .register, token => Register.IsName token
  | .immediate width, token => ∃ n, site.StandsFor token n ∧ Part.InRange width n

/-- Tokens are an instruction: the mnemonic of an operation in any case, and operands that fit its
parts one by one. -/
def IsInstruction (site : Site) (tokens : List String) : Prop :=
  ∃ first operands, ∃ op : Op, tokens = first :: operands ∧ op.mnemonic = first.toLower ∧
    List.Forall₂ site.Admits op.parts operands

/-- A token does not fit a part, for the reason that the error gives. -/
inductive Refuses (site : Site) (token : String) : Part → LineError → Prop
  /-- It is not the name of a register. -/
  | unknownRegister (h : ¬ Register.IsName token) :
    Refuses site token .register (.unknownRegister token)
  /-- It is neither a number nor a label. -/
  | unresolved {width : Nat} (hn : ¬ ∃ n, Immediate.Numeral token.toList n)
      (hl : site.labels.address? token = none) :
    Refuses site token (.immediate width) (.malformed (.unresolved token))
  /-- It stands for an integer that is out of range, and so is the nearest one of 64 bits. -/
  | outOfRange {width : Nat} {n : Int} (hs : site.StandsFor token n)
      (hr : ¬ Part.InRange width n) (hk : ¬ Part.InRange width (Immediate.saturated n)) :
    Refuses site token (.immediate width) (.outOfRange ⟨Immediate.saturated n, width⟩)

/-- Tokens are no instruction, for the reason that the error gives. -/
inductive Blames (site : Site) : List String → LineError → Prop
  /-- There are no tokens. -/
  | noInstruction : Blames site [] (.malformed .noInstruction)
  /-- The first token is the mnemonic of no operation. -/
  | unknownMnemonic {first : String} {operands : List String}
      (h : ∀ op : Op, op.mnemonic ≠ first.toLower) :
    Blames site (first :: operands) (.unknownMnemonic first)
  /-- There are more or fewer operands than the operation has parts. -/
  | operandCount {first : String} {operands : List String} {op : Op}
      (ho : op.mnemonic = first.toLower) (hl : operands.length ≠ op.parts.length) :
    Blames site (first :: operands)
      (.malformed (.operandCount op.mnemonic op.parts.length operands.length))
  /-- An operand does not fit its part. -/
  | operand {first token : String} {operands : List String} {op : Op} {part : Part}
      {error : LineError} (ho : op.mnemonic = first.toLower)
      (hl : operands.length = op.parts.length) (hm : (part, token) ∈ op.parts.zip operands)
      (hr : site.Refuses token part error) :
    Blames site (first :: operands) error

end Site

/-! ### Parts and slots -/

/-- What the operand of a slot is, in an operation whose immediate has a width. -/
def Slot.part (width : Nat) : Slot → Part
  | .imm => .immediate width
  | .rd | .rs1 | .rs2 => .register

/-- The parts of an operation are those of its slots. -/
theorem Op.parts_eq (op : Op) : op.parts = op.slots.map (Slot.part op.format.immediateWidth) := by
  cases op <;> rfl

/-- An operation has as many parts as slots. -/
theorem Op.length_parts (op : Op) : op.parts.length = op.slots.length := by
  rw [parts_eq, List.length_map]

/-- The part of a slot is beside the operand of the slot. -/
theorem Op.mem_zip_parts {op : Op} {slot : Slot} {token : String} {operands : List String}
    (h : (slot, token) ∈ op.slots.zip operands) :
    (slot.part op.format.immediateWidth, token) ∈ op.parts.zip operands := by
  rw [parts_eq, List.zip_map_left]
  exact List.mem_map_of_mem h

/-- No format has an immediate of more bits than a word. -/
theorem Format.immediateWidth_le (format : Format) : format.immediateWidth ≤ 32 := by
  cases format <;> decide

/-- An operation has a slot for an immediate exactly if its format has one. -/
theorem Op.imm_mem_slots_iff (op : Op) : .imm ∈ op.slots ↔ op.format ≠ .R := by
  cases op <;> decide

/-- Every slot that operands fill has one of them. -/
theorem Site.exists_operand {site : Site} {fields : Fields} {slots : List Slot}
    {operands : List String} (h : List.Forall₂ (site.Fills fields) slots operands) {slot : Slot}
    (hs : slot ∈ slots) :
    ∃ token, (slot, token) ∈ slots.zip operands ∧ site.Fills fields slot token := by
  induction h with
  | nil => cases hs
  | @cons first token _ rest hf _ ih =>
    rcases List.mem_cons.1 hs with rfl | hs
    · exact ⟨token, List.mem_cons_self, hf⟩
    · obtain ⟨other, hm, ho⟩ := ih hs
      exact ⟨other, List.mem_cons_of_mem _ hm, ho⟩

/-- The range of a width is that of its patterns. -/
theorem Part.inRange_iff {width : Nat} {n : Int} : InRange width n ↔ Signed.Fits width n := by
  have hhalf : Signed.half width = 2 ^ (width - 1) := Nat.cast_pow 2 (width - 1)
  rw [InRange, Signed.Fits, hhalf]

/-- An integer of more than 64 bits is out of the range of every part, and so is the nearest one of
64 bits. -/
theorem Part.not_inRange_of_beyond {width : Nat} {n : Int} (hw : width ≤ 32)
    (h : n < -2 ^ 63 ∨ 2 ^ 63 ≤ n) :
    ¬ InRange width n ∧ ¬ InRange width (Immediate.saturated n) := by
  have hpow : (2 : Int) ^ (width - 1) ≤ 2 ^ 31 :=
    pow_le_pow_right₀ (by decide) (Nat.sub_le_of_le_add hw)
  unfold InRange Immediate.saturated
  omega

namespace Immediate

/-- An integer of 64 bits is the nearest one. -/
theorem saturated_eq_self {n : Int} (hl : -2 ^ 63 ≤ n) (hg : n < 2 ^ 63) : saturated n = n := by
  unfold saturated
  omega

/-- An integer of 64 bits is kept. -/
theorem ofInt_of_within {n : Int} (hl : -2 ^ 63 ≤ n) (hg : n < 2 ^ 63) : ofInt n = .value n := by
  rw [ofInt_eq, if_neg (by omega), if_neg (by omega)]

/-- Of any other integer the nearest one is kept. -/
theorem ofInt_of_beyond {n : Int} (h : n < -2 ^ 63 ∨ 2 ^ 63 ≤ n) :
    ofInt n = .beyond (saturated n) := by
  rw [ofInt_eq, saturated]
  split
  case isTrue hl =>
    have hs : max (-2 ^ 63) (min n (2 ^ 63 - 1)) = -2 ^ 63 := by omega
    rw [hs]
  case isFalse hl =>
    have hs : max (-2 ^ 63) (min n (2 ^ 63 - 1)) = 2 ^ 63 - 1 := by omega
    rw [hs, if_pos (h.resolve_left hl)]

end Immediate

/-- A token is the name of a register exactly if it names one. -/
theorem Register.ofName?_eq_none_iff {token : String} : ofName? token = none ↔ ¬ IsName token := by
  rw [ofName?, IsName]
  split
  case isTrue hf => simp [hf]
  case isFalse hf =>
    simp only [Option.map_eq_none_iff, List.findIdx?_eq_none_iff, beq_eq_false_iff_ne, hf,
      false_or]
    exact ⟨fun h hm => h token hm rfl, fun h name hn he => h (he ▸ hn)⟩

namespace Site

variable {site : Site} {token : String}

/-- A token stands for one integer. -/
theorem StandsFor.unique {n m : Int} (hn : site.StandsFor token n) (hm : site.StandsFor token m) :
    n = m := by
  cases hn with
  | numeral h =>
    cases hm with
    | numeral h' => exact h.unique h'
    | label hn' => exact absurd ⟨_, h⟩ hn'
  | label hn ht =>
    cases hm with
    | numeral h' => exact absurd ⟨_, h'⟩ hn
    | label hn' ht' => rw [Option.some.inj (ht.symm.trans ht')]

/-- A token is read as the integer that it stands for, if that has 64 bits; otherwise the nearest
one is reported, or that the token stands for none. -/
theorem immediate_cases (site : Site) (width : Nat) (token : String) :
    (∃ n, site.StandsFor token n ∧ site.immediate width token = .ok n ∧
        -2 ^ 63 ≤ n ∧ n < 2 ^ 63) ∨
      (∃ n, site.StandsFor token n ∧ (n < -2 ^ 63 ∨ 2 ^ 63 ≤ n) ∧
        site.immediate width token = .error (.outOfRange ⟨Immediate.saturated n, width⟩)) ∨
      ((¬ ∃ n, Immediate.Numeral token.toList n) ∧ site.labels.address? token = none ∧
        site.immediate width token = .error (.malformed (.unresolved token))) := by
  by_cases hnumeral : ∃ n, Immediate.Numeral token.toList n
  case pos =>
    obtain ⟨n, hn⟩ := hnumeral
    have hread := Immediate.ofToken?_of_numeral hn
    by_cases hwithin : -2 ^ 63 ≤ n ∧ n < 2 ^ 63
    case pos =>
      rw [Immediate.ofInt_of_within hwithin.1 hwithin.2] at hread
      exact .inl ⟨n, .numeral hn, by simp only [immediate, hread], hwithin⟩
    case neg =>
      have hbeyond : n < -2 ^ 63 ∨ 2 ^ 63 ≤ n := by omega
      rw [Immediate.ofInt_of_beyond hbeyond] at hread
      exact .inr (.inl ⟨n, .numeral hn, hbeyond, by simp only [immediate, hread]⟩)
  case neg =>
    have hread := Immediate.ofToken?_eq_none_iff.2 hnumeral
    cases hlabel : site.labels.address? token with
    | none => exact .inr (.inr ⟨hnumeral, rfl, by simp only [immediate, hread, hlabel]⟩)
    | some target =>
      have htarget := target.isLt
      have haddress := site.address.isLt
      exact .inl ⟨_, .label hnumeral hlabel, by simp only [immediate, hread, hlabel], by omega⟩

/-- What a token is read as is what it stands for, and has 64 bits. -/
theorem Denotes.standsFor {n : Int} (h : site.Denotes token n) :
    site.StandsFor token n ∧ -2 ^ 63 ≤ n ∧ n < 2 ^ 63 := by
  have hread : site.immediate 0 token = .ok n := immediate_eq_ok_iff.2 h
  rcases immediate_cases site 0 token with ⟨m, hs, hm, hw⟩ | ⟨m, -, -, hm⟩ | ⟨-, -, hm⟩
  · obtain rfl : m = n := Except.ok.inj (hm.symm.trans hread)
    exact ⟨hs, hw⟩
  · cases hm.symm.trans hread
  · cases hm.symm.trans hread

/-- A token that is not read as an immediate does not fit the part. -/
theorem refuses_of_immediate {width : Nat} (hw : width ≤ 32) {error : LineError}
    (h : site.immediate width token = .error error) :
    site.Refuses token (.immediate width) error := by
  rcases immediate_cases site width token with ⟨n, -, hn, -⟩ | ⟨n, hs, hb, hn⟩ | ⟨hn, hl, he⟩
  · cases hn.symm.trans h
  · obtain rfl := Except.error.inj (hn.symm.trans h)
    obtain ⟨hr, hk⟩ := Part.not_inRange_of_beyond hw hb
    exact .outOfRange hs hr hk
  · obtain rfl := Except.error.inj (he.symm.trans h)
    exact .unresolved hn hl

/-- A token that is not read as a register does not fit the part. -/
theorem refuses_of_register {error : LineError} (h : register token = .error error) :
    site.Refuses token .register error := by
  unfold register at h
  split at h
  case h_1 => cases h
  case h_2 hn =>
    obtain rfl := Except.error.inj h
    exact .unknownRegister (Register.ofName?_eq_none_iff.1 hn)

/-- An operand that does not fill a slot does not fit the part of the slot. -/
theorem refuses_of_fill {width : Nat} (hw : width ≤ 32) {fields : Fields} {slot : Slot}
    {error : LineError} (h : site.fill width fields (slot, token) = .error error) :
    site.Refuses token (slot.part width) error := by
  cases slot with
  | imm => exact refuses_of_immediate hw (map_eq_error.1 h)
  | rd | rs1 | rs2 => exact refuses_of_register (map_eq_error.1 h)

/-- Operands that are not accepted are too few or too many, or one of them does not fit its part. -/
theorem blames_of_fields {first : String} {op : Op} {operands : List String} {error : LineError}
    (ho : op.mnemonic = first.toLower) (h : site.fields op operands = .error error) :
    site.Blames (first :: operands) error := by
  unfold Site.fields at h
  split at h
  case isTrue hl =>
    obtain ⟨⟨slot, token⟩, hm, fields, hf⟩ := exists_of_foldlM_eq_error h
    refine .operand ho (hl.trans op.length_parts.symm) (Op.mem_zip_parts hm) ?_
    exact refuses_of_fill (op.format.immediateWidth_le.trans (by decide)) hf
  case isFalse hl =>
    obtain rfl := Except.error.inj h
    rw [← op.length_parts] at hl ⊢
    exact .operandCount ho hl

/-- Fields that cannot be joined have an immediate whose operand does not fit its part. -/
theorem blames_of_join {first : String} {op : Op} {operands : List String} {fields : Fields}
    {error : RangeError} (ho : op.mnemonic = first.toLower)
    (hf : site.fields op operands = .ok fields) (h : op.format.join fields = .error error) :
    site.Blames (first :: operands) (.outOfRange error) := by
  obtain ⟨hformat, hfits, rfl⟩ := Format.join_eq_error_iff.1 h
  obtain ⟨hfills, -⟩ := fields_eq_ok_iff.1 hf
  have hl : operands.length = op.parts.length := hfills.length_eq.symm.trans op.length_parts.symm
  obtain ⟨token, hm, hd⟩ := exists_operand hfills (op.imm_mem_slots_iff.2 hformat)
  obtain ⟨hs, hleast, hgreatest⟩ := Denotes.standsFor hd
  have hr : ¬ Part.InRange op.format.immediateWidth fields.imm := mt Part.inRange_iff.1 hfits
  have hk := Immediate.saturated_eq_self hleast hgreatest
  refine .operand ho hl (Op.mem_zip_parts hm) ?_
  have hrefused := Refuses.outOfRange hs hr (hk.symm ▸ hr)
  rwa [hk] at hrefused

/-- An error of encoding names something that is wrong with the tokens. -/
theorem blames_of_encode {tokens : List String} {error : LineError}
    (h : site.encode tokens = .error error) : site.Blames tokens error := by
  cases tokens with
  | nil =>
    obtain rfl := Except.error.inj h
    exact .noInstruction
  | cons first operands =>
    cases hn : Op.named? first.toLower with
    | none =>
      simp only [encode, hn] at h
      obtain rfl := Except.error.inj h
      exact .unknownMnemonic fun op ho => by rw [← ho, Op.named?_mnemonic] at hn; cases hn
    | some op =>
      have ho : op.mnemonic = first.toLower := (Op.named?_eq_some_iff.1 hn).symm
      simp only [encode, hn, encodeOp] at h
      cases hf : site.fields op operands with
      | error defect =>
        simp only [hf] at h
        obtain rfl := Except.error.inj h
        exact blames_of_fields ho hf
      | ok fields =>
        cases hj : op.format.join fields with
        | error range =>
          simp only [hf, hj] at h
          obtain rfl := Except.error.inj h
          exact blames_of_join ho hf hj
        | ok word =>
          simp only [hf, hj] at h
          cases h

/-- A part that admits a token does not refuse it. -/
theorem Admits.not_refuses {part : Part} {error : LineError} (h : site.Admits part token) :
    ¬ site.Refuses token part error := by
  intro hr
  cases hr with
  | unknownRegister hn => exact hn h
  | unresolved hn hl =>
    obtain ⟨n, hs, -⟩ := h
    cases hs with
    | numeral hn' => exact hn ⟨_, hn'⟩
    | label _ ht => cases hl.symm.trans ht
  | outOfRange hs hr =>
    obtain ⟨n, hs', hr'⟩ := h
    exact hr (hs.unique hs' ▸ hr')

/-- Nothing is wrong with an instruction. -/
theorem IsInstruction.not_blames {tokens : List String} {error : LineError}
    (h : site.IsInstruction tokens) : ¬ site.Blames tokens error := by
  obtain ⟨first, operands, op, rfl, ho, hadmits⟩ := h
  -- an operation is the only one with its mnemonic
  have honly : ∀ other : Op, other.mnemonic = first.toLower → other = op := fun other hother =>
    Option.some.inj ((Op.named?_mnemonic other).symm.trans (by
      rw [hother, ← ho, Op.named?_mnemonic]))
  intro hb
  cases hb with
  | unknownMnemonic hn => exact hn op ho
  | operandCount ho' hl =>
    obtain rfl := honly _ ho'
    exact hl hadmits.length_eq.symm
  | operand ho' _ hm hr =>
    obtain rfl := honly _ ho'
    exact ((List.forall₂_iff_zip.1 hadmits).2 hm).not_refuses hr

/-- Encoded tokens are an instruction. -/
theorem isInstruction_of_encode {tokens : List String} {encoded : Encoded}
    (h : site.encode tokens = .ok encoded) : site.IsInstruction tokens := by
  obtain ⟨first, operands, op, fields, word, rfl, hn, hf, hj, -⟩ := encode_eq_ok_iff.1 h
  obtain ⟨hfills, -⟩ := fields_eq_ok_iff.1 hf
  have hformat : ∀ slot ∈ op.slots, slot = .imm → op.format ≠ .R := fun slot hm hs =>
    op.imm_mem_slots_iff.1 (hs ▸ hm)
  refine ⟨first, operands, op, rfl, (Op.named?_eq_some_iff.1 hn).symm, ?_⟩
  rw [op.parts_eq, List.forall₂_map_left_iff]
  refine ((List.forall₂_and_left _ _).2 ⟨hformat, hfills⟩).imp fun slot token ⟨hr, hfill⟩ => ?_
  have hname : ∀ {number : Byte}, Register.ofName? token = some number → Register.IsName token :=
    fun hnumber => by_contra fun hn => by
      rw [Register.ofName?_eq_none_iff.2 hn] at hnumber
      cases hnumber
  cases slot with
  | imm =>
    have hfits := (Format.join_eq_ok_iff.1 hj).1.resolve_left (hr rfl)
    exact ⟨fields.imm, (Denotes.standsFor hfill).1, Part.inRange_iff.2 hfits⟩
  | rd | rs1 | rs2 => exact hname hfill

/-- Tokens are encoded exactly if they are an instruction. An error names something that is wrong
with them, and the first token is blamed exactly if no operation has it as its mnemonic in any
case. -/
theorem encode_by_grammar (site : Site) (tokens : List String) :
    ((∃ encoded, site.encode tokens = .ok encoded) ↔ site.IsInstruction tokens) ∧
      (∀ error, site.encode tokens = .error error → site.Blames tokens error) ∧
      ∀ token, site.encode tokens = .error (.unknownMnemonic token) ↔
        ∃ operands, tokens = token :: operands ∧ ∀ op : Op, op.mnemonic ≠ token.toLower := by
  refine ⟨⟨?_, fun h => ?_⟩, fun error => blames_of_encode, fun token => ⟨fun h => ?_, ?_⟩⟩
  · rintro ⟨encoded, he⟩
    exact isInstruction_of_encode he
  · cases he : site.encode tokens with
    | ok encoded => exact ⟨encoded, rfl⟩
    | error error => exact absurd (blames_of_encode he) h.not_blames
  · cases blames_of_encode h with
    | unknownMnemonic hn => exact ⟨_, rfl, hn⟩
    | operand _ _ _ hr => cases hr
  · rintro ⟨operands, rfl, hn⟩
    have hnone : Op.named? token.toLower = none := Option.eq_none_iff_forall_ne_some.2
      fun op ho => hn op (Op.named?_eq_some_iff.1 ho).symm
    simp only [encode, hnone]

/-- A load with the smallest offset is an instruction and is encoded; a branch on the frame pointer
that is too far from its label is none, and the distance is reported. -/
theorem encode_by_grammar_limits :
    (∃ encoded, encode {} ["LW", "a0", "-0x800", "sp"] = .ok encoded) ∧
      Blames ⟨0, [("far", 0x8000)]⟩ ["bNe", "fp", "t0", "far"] (.outOfRange ⟨32768, 16⟩) := by
  have hmark : Immediate.Numeral "-0x800".toList (-(2048 : Nat)) := by
    have hvalue : Text.rowValue 16 "800".toList = 2048 := by decide +kernel
    exact hvalue ▸ .minus (.hexadecimal (.inl rfl) (by decide) (by decide))
  have hoffset : Admits {} (.immediate 12) "-0x800" := ⟨_, .numeral hmark, by decide⟩
  have hregister : Register.IsName "a0" ∧ Register.IsName "sp" := by decide
  have hload : IsInstruction {} ["LW", "a0", "-0x800", "sp"] :=
    ⟨"LW", _, .lw, rfl, by decide +kernel,
      .cons hregister.1 (.cons hoffset (.cons hregister.2 .nil))⟩
  have hfar : encode ⟨0, [("far", 0x8000)]⟩ ["bNe", "fp", "t0", "far"] =
      .error (.outOfRange ⟨32768, 16⟩) := by decide +kernel
  exact ⟨(encode_by_grammar _ _).1.2 hload, (encode_by_grammar _ _).2.1 _ hfar⟩

end Site

end MiniRisc
