import Mathlib.Data.List.SplitBy
import MiniRisc.Proofs.Arithmetic
import MiniRisc.Proofs.Grammar
import MiniRisc.Proofs.Tokens

/-!
# The values behind the registers of a written instruction

An instruction that is written with values is the plain one with a remark behind the name of every
register: its number and the integer that it holds. The names are found in the plain text alone, as
runs of letters and digits that name a register, so a number or an offset is never taken for one.
Whether an integer is shown with a sign depends on the operation and on the place of the operand.
-/

namespace MiniRisc

/-! ### Names in a text -/

/-- The text cut wherever letters, digits, hyphens and underscores meet other characters. -/
def Text.runs (text : List Char) : List (List Char) :=
  text.splitBy fun c d => isSolid c == isSolid d

/-- A run with a remark behind it if it is the name of a register: the number of the register and
the integer that is shown for it. -/
def remarked (shown : Byte → Int) (run : String) : String :=
  match Register.ofName? run with
  | some register =>
    run ++ "(x" ++ toString register.toNat ++ ": " ++ toString (shown register) ++ ")"
  | none => run

/-- A text with a remark behind every name of a register. -/
def annotated (shown : Byte → Int) (text : String) : String :=
  String.join ((Text.runs text.toList).map fun run => remarked shown (String.ofList run))

/-- Characters of one kind before one of the other kind, or at the end, are the first run. -/
theorem Text.runs_append {kind : Bool} {front back : List Char} (hne : front ≠ [])
    (hf : ∀ c ∈ front, isSolid c = kind) (hb : ∀ d ∈ back.head?, isSolid d ≠ kind) :
    runs (front ++ back) = front :: runs back := by
  have hone : runs front = [front] := by
    refine List.splitBy_of_isChain hne ?_
    refine (List.pairwise_of_forall_mem_list fun c hc d hd => ?_).isChain
    rw [hf c hc, hf d hd, beq_self_eq_true]
  have hcut : runs (front ++ back) = runs front ++ runs back := by
    refine List.splitBy_append fun c hc d hd => ?_
    rw [hf c (List.mem_of_getLast? hc), beq_eq_false_iff_ne]
    exact (hb d hd).symm
  rw [hcut, hone, List.singleton_append]

/-- A solid text is one run. -/
theorem Text.runs_solid {text : List Char} (h : Solid text) : runs text = [text] := by
  have hend : ∀ d ∈ ([] : List Char).head?, isSolid d ≠ true := nofun
  have hrun := runs_append h.1 h.2 hend
  rwa [List.append_nil] at hrun

/-- A solid text with another one in parentheses behind it is cut at the parentheses. -/
theorem Text.runs_parentheses {front inner : List Char} (hf : Solid front) (hi : Solid inner) :
    runs (front ++ '(' :: (inner ++ [')'])) = [front, ['('], inner, [')']] := by
  have hopen : ∀ c ∈ ['('], isSolid c = false := by simp [isSolid]
  have hclose : runs [')'] = [[')']] := rfl
  have hinner : runs (inner ++ [')']) = [inner, [')']] := by
    rw [runs_append hi.1 hi.2 (by simp [isSolid]), hclose]
  have hfirst : ∀ d ∈ (inner ++ [')']).head?, isSolid d ≠ false := by
    intro d hd
    rw [List.head?_append_of_ne_nil _ hi.1] at hd
    rw [hi.2 d (List.mem_of_head? hd)]
    decide
  have hrest : runs ('(' :: (inner ++ [')'])) = ['('] :: runs (inner ++ [')']) :=
    runs_append (List.cons_ne_nil _ _) hopen hfirst
  rw [runs_append hf.1 hf.2 (by simp [isSolid]), hrest, hinner]

/-- The decimal numeral of an integer is not the name of a register. -/
theorem Register.ofName?_signedDecimal (value : Word) : ofName? value.signedDecimal = none := by
  have hnumber := Immediate.ofToken?_signedDecimal value
  have hnames : ∀ name ∈ "fp" :: names, Immediate.ofToken? name = none := by decide +kernel
  refine ofName?_eq_none_iff.2 fun hn => ?_
  have hnone : Immediate.ofToken? value.signedDecimal = none :=
    hnames _ (List.mem_cons.2 hn)
  rw [hnone] at hnumber
  cases hnumber

section

variable {shown : Byte → Int} {text : String}

/-- A text of one run has a remark if it is a name. -/
theorem annotated_of_runs (h : Text.runs text.toList = [text.toList]) :
    annotated shown text = remarked shown text := by
  rw [annotated, h, List.map_singleton, String.ofList_toList, String.join_cons, String.join_nil,
    String.append_empty]

/-- The name of a register has a remark. -/
theorem annotated_name (register : Byte) :
    annotated shown (Register.name register) = Register.name register ++ "(x" ++
      toString (Register.index register).val ++ ": " ++
      toString (shown (BitVec.ofNat 8 (Register.index register).val)) ++ ")" := by
  obtain ⟨hsolid, hname⟩ := Register.name_spec register
  have hlt := (Register.index register).isLt
  have hn : (BitVec.ofNat 8 (Register.index register).val).toNat =
      (Register.index register).val := by
    rw [BitVec.toNat_ofNat]
    omega
  rw [annotated_of_runs (Text.runs_solid hsolid), remarked, hname]
  simp only [hn]

/-- A run that is no name has no remark. -/
theorem remarked_of_none (h : Register.ofName? text = none) : remarked shown text = text := by
  rw [remarked, h]

/-- A number has no remark. -/
theorem annotated_signedDecimal (value : Word) :
    annotated shown value.signedDecimal = value.signedDecimal := by
  have hsolid : Text.Solid value.signedDecimal.toList := Text.solid_toString value.toInt
  rw [annotated_of_runs (Text.runs_solid hsolid),
    remarked_of_none (Register.ofName?_signedDecimal value)]

/-- An offset before a base in parentheses is annotated in the parentheses alone. -/
theorem annotated_memory (offset : Word) {base : String} (hb : Text.Solid base.toList) :
    annotated shown (offset.signedDecimal ++ "(" ++ base ++ ")") =
      offset.signedDecimal ++ "(" ++ annotated shown base ++ ")" := by
  have ho : Text.Solid offset.signedDecimal.toList := Text.solid_toString offset.toInt
  have htext : (offset.signedDecimal ++ "(" ++ base ++ ")").toList =
      offset.signedDecimal.toList ++ '(' :: (base.toList ++ [')']) := by simp
  have hopen : remarked shown "(" = "(" := remarked_of_none (by decide +kernel)
  have hclose : remarked shown ")" = ")" := remarked_of_none (by decide +kernel)
  have hoffset : remarked shown offset.signedDecimal = offset.signedDecimal :=
    remarked_of_none (Register.ofName?_signedDecimal offset)
  rw [annotated, htext, Text.runs_parentheses ho hb, annotated_of_runs (Text.runs_solid hb)]
  simp [String.join_cons, hoffset, hopen, hclose, String.append_assoc]

end

/-! ### The integers that are shown -/

/-- The operands that are shown without a sign: all those of a comparison of naturals, and the
third of a shift, which is its amount. -/
def Op.Unsigned (op : Op) (place : Nat) : Prop :=
  op ∈ [.sltu, .bltu, .bgeu] ∨ op ∈ [.sll, .srl] ∧ place = 2

instance (op : Op) (place : Nat) : Decidable (op.Unsigned place) :=
  inferInstanceAs (Decidable (_ ∨ _))

/-- The integer that an operation shows for a word in the operand at a place. -/
def Op.shown (op : Op) (place : Nat) (value : Word) : Int :=
  if op.Unsigned place then value.toNat else value.toInt

/-- The register of an operand, if it has one. -/
def Operand.source? : Operand → Option RegisterOperand
  | register source => some source
  | immediate _ => none
  | memory _ base => some base

namespace Instruction

variable {instruction : Instruction} {operand : Operand} {source : RegisterOperand}

/-- The register of an operand is the one in a slot. -/
theorem exists_slot_of_mem {slots : List Slot} (h : operand ∈ instruction.operandsIn slots)
    (hs : operand.source? = some source) : ∃ slot, source = instruction.registerAt slot := by
  fun_induction instruction.operandsIn slots with
  | case1 => cases h
  | case2 slots ih =>
    rcases List.mem_cons.1 h with rfl | h
    · exact ⟨.rs1, (Option.some.inj hs).symm⟩
    · exact ih h
  | case3 slots _ ih =>
    rcases List.mem_cons.1 h with rfl | h
    · cases hs
    · exact ih h
  | case4 slot slots _ _ ih =>
    rcases List.mem_cons.1 h with rfl | h
    · exact ⟨slot, (Option.some.inj hs).symm⟩
    · exact ih h

/-- The register of an operand is read as the operation shows it there. -/
theorem reading_of_operand {place : Nat} (h : instruction.operands[place]? = some operand)
    (hs : operand.source? = some source) :
    source.reading = if instruction.op.Unsigned place then .unsigned else .signed := by
  obtain ⟨op, format, raw, rd, rs1, rs2, imm⟩ := instruction
  cases op
  case sll | srl =>
    -- only here the operands are not all read alike
    rcases place with _ | _ | _ | place
    case succ.succ.succ => cases h
    all_goals
      cases h
      cases hs
      rfl
  all_goals
    obtain ⟨slot, rfl⟩ := exists_slot_of_mem (List.mem_of_getElem? h) hs
    cases slot <;> rfl

end Instruction

/-- A word stands for the integer that an operation shows for it. -/
theorem Op.represents_shown (op : Op) (place : Nat) (value : Word) :
    value.Represents (op.shown place value) := by
  unfold shown
  split
  · exact value.represents_toNat
  · exact value.represents_toInt

/-- The remarks for an operand at a place, with the values that the registers have. -/
def Op.remarks (op : Op) (place : Nat) (registers : Vector Word 32) (register : Byte) : Int :=
  op.shown place (registers.get (Register.index register))

section

variable {op : Op} {place : Nat}

/-- The numeral of a value in the reading of an operand is that of the integer that is shown. -/
theorem Op.numeral_reading (value : Word) :
    (if op.Unsigned place then Reading.unsigned else Reading.signed).numeral value =
      toString (op.shown place value) := by
  unfold Op.shown
  split <;> rfl

/-- A register that is written with its value is its name with a remark. -/
theorem RegisterOperand.text_some {source : RegisterOperand}
    (hr : source.reading = if op.Unsigned place then .unsigned else .signed)
    (registers : Vector Word 32) :
    source.text (some registers) = annotated (op.remarks place registers) (source.text none) := by
  have hi : Register.index (BitVec.ofNat 8 (Register.index source.register).val) =
      Register.index source.register := by
    apply Fin.ext
    simp only [Register.index, BitVec.toNat_ofNat]
    omega
  have hn : source.text none = Register.name source.register := rfl
  rw [hn, annotated_name]
  simp only [Op.remarks, hi, ← Op.numeral_reading, ← hr]
  rfl

/-- An operand that is written with values is the plain one with remarks. -/
theorem Operand.text_some {operand : Operand}
    (hr : ∀ source, operand.source? = some source →
      source.reading = if op.Unsigned place then .unsigned else .signed)
    (registers : Vector Word 32) :
    operand.text (some registers) = annotated (op.remarks place registers) (operand.text none) := by
  cases operand with
  | register source => exact RegisterOperand.text_some (hr source rfl) registers
  | immediate value => exact (annotated_signedDecimal value).symm
  | memory offset base =>
    have hb := RegisterOperand.text_some (hr base rfl) registers
    have hs : Text.Solid (base.text none).toList := (Register.name_spec base.register).1
    rw [Operand.text, Operand.text, annotated_memory offset hs, hb]

end

namespace Instruction

/-- The register of an operand has five bits. -/
theorem lt_of_operand {word : Word} {instruction : Instruction}
    (h : ofWord? word = some instruction) {operand : Operand}
    (ho : operand ∈ instruction.operands) {source : RegisterOperand}
    (hs : operand.source? = some source) : source.register.toNat < 32 := by
  obtain ⟨hd, h1, h2⟩ := lt_of_ofWord? h
  obtain ⟨slot, rfl⟩ := exists_slot_of_mem ho hs
  cases slot
  case rd => exact hd
  case rs1 => exact h1
  case rs2 => exact h2
  case imm => exact Nat.zero_lt_succ 31

/-- An instruction of a word that is written with values has no register beyond the file, has the
mnemonic and as many operands as without values, and each operand is the plain one with remarks.
A remark shows an integer that denotes the value of the register: without a sign for a comparison
of naturals and for the amount of a shift, in two's complement elsewhere. -/
theorem written_annotated {word : Word} {instruction : Instruction}
    (h : ofWord? word = some instruction) (registers : Vector Word 32) :
    (∀ operand ∈ instruction.operands, ∀ source, operand.source? = some source →
      source.register.toNat < 32) ∧
    (instruction.written (some registers)).mnemonic = (instruction.written none).mnemonic ∧
    (instruction.written (some registers)).operands.length =
      (instruction.written none).operands.length ∧
    (instruction.written (some registers)).operands =
      (instruction.written none).operands.mapIdx (fun place =>
        annotated (instruction.op.remarks place registers)) ∧
    ∀ place register, instruction.op.remarks place registers register % 4294967296 =
      (registers.get (Register.index register)).toNat := by
  refine ⟨fun operand ho source hs => lt_of_operand h ho hs, rfl, ?_, ?_, ?_⟩
  · rw [length_written, length_written]
  · refine List.ext_getElem? fun place => ?_
    simp only [written, List.getElem?_mapIdx, List.getElem?_map, Option.map_map]
    cases ho : instruction.operands[place]? with
    | none => rfl
    | some operand =>
      have htext := Operand.text_some (fun _ hs => reading_of_operand ho hs) registers
      exact congrArg some htext
  · exact fun place register => (instruction.op.represents_shown place _).symm

/-- A shift of the register `a0` by the register `a1`. -/
def shiftByRegister : Instruction :=
  { op := .sll, format := .R, raw := 0x00B51633, rd := 12, rs1 := 10, rs2 := 11 }

/-- Where all registers hold minus five, the amount of a shift is shown without a sign and the
other operands with one. -/
theorem written_annotated_shift :
    ofWord? 0x00B51633 = some shiftByRegister ∧
      (shiftByRegister.written (some (Vector.replicate 32 0xFFFFFFFB))).mnemonic = "sll" ∧
      (shiftByRegister.written (some (Vector.replicate 32 0xFFFFFFFB))).operands =
        ["a2(x12: -5)", "a0(x10: -5)", "a1(x11: 4294967291)"] := by
  have h : ofWord? 0x00B51633 = some shiftByRegister := by decide
  obtain ⟨-, hm, -, ho, -⟩ := written_annotated h (Vector.replicate 32 0xFFFFFFFB)
  refine ⟨h, hm, ho.trans ?_⟩
  decide +kernel

end Instruction

end MiniRisc
