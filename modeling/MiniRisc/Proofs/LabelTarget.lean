import MiniRisc.Proofs.Agreement
import MiniRisc.Proofs.Placement
import MiniRisc.Proofs.Steps

/-!
# A label means its address

A branch or jump to a label goes to the address of the label, from every state and in a program of
any length, as soon as its word stores the distance to the label. The distance is an integer, the
target that the machine computes is a word, and nothing is lost between them.
-/

namespace MiniRisc

/-- The comparison that a conditional branch makes of its two registers. -/
def Op.Compares (op : Op) (a b : Word) : Prop :=
  match op with
  | .beq => a = b
  | .bne => a ≠ b
  | .blt => a.toInt < b.toInt
  | .bge => b.toInt ≤ a.toInt
  | .bltu => a.toNat < b.toNat
  | .bgeu => b.toNat ≤ a.toNat
  | _ => False

/-- A conditional branch is taken if its comparison holds. -/
theorem Op.taken_iff_compares (op : Op) (a b : Word) : op.taken a b = true ↔ op.Compares a b := by
  cases op <;> simp [taken, Compares, BitVec.slt, BitVec.ult]

/-- A line with an operation and register operands jumps: always, or if its branch compares the
registers that the operands name. -/
def Cpu.Jumps (cpu : Cpu) (op : Op) (operands : List String) : Prop :=
  op = .jal ∨ ∃ s t a b, operands = [s, t] ∧ Register.ofName? s = some a ∧
    Register.ofName? t = some b ∧ op.Compares (cpu.get a) (cpu.get b)

/-- A step at a branch or jump retires it, and goes to its target if the jump is unconditional or
the branch is taken, and to the next instruction otherwise. -/
theorem State.step_of_jump {program : Program} {state : State} {word : Word}
    {instruction : Instruction} (hf : program.fetch? state.cpu.pc = some word)
    (hv : word ≠ Word.virtualHalt) (hw : Instruction.ofWord? word = some instruction)
    (hj : instruction.op.isBranch = true ∨ instruction.op = .jal) :
    ∃ after, state.step program = (after, .ok (.retired instruction)) ∧
      after.cpu.pc =
        if instruction.op = .jal ∨ instruction.op.taken (state.cpu.get instruction.rs1)
          (state.cpu.get instruction.rs2) = true then state.cpu.pc + instruction.imm
        else state.cpu.pc + 4 := by
  have hh : instruction.op ≠ .halt ∧ ¬ (instruction.op = .lw ∨ instruction.op = .sw) := by
    revert hj
    cases instruction.op <;> decide
  have hi : At program state instruction := ⟨word, hf, hv, hw⟩
  obtain ⟨after, hs⟩ := hi.step_cases hh.1 |>.resolve_right fun ⟨_, ho, _⟩ => hh.2 ho
  refine ⟨after, hs, ?_⟩
  rw [pc_of_retired hs]
  obtain ⟨op, format, raw, rd, rs1, rs2, imm⟩ := instruction
  cases op <;> simp only [Op.isBranch, Bool.false_eq_true, reduceCtorEq, or_self] at hj
  all_goals simp only [successor, reduceCtorEq, false_or, true_or, if_true]

/-- Adding the distance between two words to the first gives the second. -/
theorem Word.add_distance (here target : Word) :
    here + BitVec.ofInt 32 ((target.toNat : Int) - (here.toNat : Int)) = target := by
  have hh : here = BitVec.ofInt 32 (here.toNat : Int) := by
    rw [BitVec.ofInt_natCast, BitVec.ofNat_toNat, BitVec.setWidth_eq]
  have hs : (here.toNat : Int) + ((target.toNat : Int) - (here.toNat : Int)) = target.toNat := by
    omega
  calc here + BitVec.ofInt 32 ((target.toNat : Int) - (here.toNat : Int))
      = BitVec.ofInt 32 (here.toNat : Int) +
          BitVec.ofInt 32 ((target.toNat : Int) - (here.toNat : Int)) := by rw [← hh]
    _ = BitVec.ofInt 32 (target.toNat : Int) := by rw [← BitVec.ofInt_add, hs]
    _ = target := by rw [BitVec.ofInt_natCast, BitVec.ofNat_toNat, BitVec.setWidth_eq]

/-- In a branch or jump the last operand is the target, and the operands before it decide whether
it is taken. -/
theorem Site.spells_jump {site : Site} {instruction : Instruction} {operands : List String}
    {label : String} (hj : instruction.op.isBranch = true ∨ instruction.op = .jal)
    (h : site.Spells (operands ++ [label]) instruction) :
    site.Offers instruction label ∧ ∀ cpu : Cpu, cpu.Jumps instruction.op operands ↔
      instruction.op = .jal ∨ instruction.op.taken (cpu.get instruction.rs1)
        (cpu.get instruction.rs2) = true := by
  obtain ⟨op, format, raw, rd, rs1, rs2, imm⟩ := instruction
  cases op <;> simp only [Op.isBranch, Bool.false_eq_true, reduceCtorEq, or_self] at hj
  case jal =>
    obtain ⟨d, i, ho, -, -, -, hi⟩ := h
    have he : operands ++ [label] = [d] ++ [i] := ho
    obtain ⟨rfl, rfl⟩ := List.append_singleton_inj.1 he
    exact ⟨hi, fun cpu => ⟨fun _ => .inl rfl, fun _ => .inl rfl⟩⟩
  all_goals
    obtain ⟨s, t, i, ho, hs, ht, -, hi⟩ := h
    have he : operands ++ [label] = [s, t] ++ [i] := ho
    obtain ⟨rfl, rfl⟩ := List.append_singleton_inj.1 he
    refine ⟨hi, fun cpu => ?_⟩
    simp only [Op.taken_iff_compares, Cpu.Jumps, reduceCtorEq, false_or]
    constructor
    · rintro ⟨_, _, a, b, he, ha, hb, hc⟩
      obtain ⟨rfl, rfl⟩ : s = _ ∧ t = _ := by simpa using he
      obtain rfl := Option.some.inj (hs.symm.trans ha)
      obtain rfl := Option.some.inj (ht.symm.trans hb)
      exact hc
    · exact fun hc => ⟨s, t, rs1, rs2, rfl, hs, ht, hc⟩

/-- The word of a line is read as the operation that the line names and as what its operands
spell. -/
theorem PlacedLine.instruction_of_gives {labels : LabelTable} {line : PlacedLine} {word : Word}
    (h : line.Gives labels word) {first : String} {operands : List String}
    (ht : line.tokens = first :: operands) {op : Op} (ho : Op.named? first.toLower = some op) :
    ∃ instruction, Instruction.ofWord? word = some instruction ∧ instruction.op = op ∧
      Site.Spells ⟨line.address, labels⟩ operands instruction := by
  obtain ⟨encoded, he, rfl⟩ := h
  rw [ht] at he
  obtain ⟨_, _, op', fields, word, htokens, ho', hf, hw, rfl⟩ := Site.encode_eq_ok_iff.1 he
  obtain ⟨rfl, rfl⟩ := List.cons.inj htokens
  obtain rfl := Option.some.inj (ho.symm.trans ho')
  obtain ⟨instruction, hi, hop, -, hs⟩ := Site.ofWord?_of_fields hf hw
  exact ⟨instruction, hi, hop, hs⟩

namespace Assembly

/-- In a program of fewer than two to the thirtieth words, a branch or jump to a label goes to the
address of the label exactly if it is unconditional or its comparison holds, and to the next
instruction otherwise, unless its word is the one that halts. The word must store the distance,
which is what the assembler warns about. -/
theorem step_to_label {source : String} {assembly : Assembly}
    (ha : ofSource source = .ok assembly) {placement : Placement}
    (hp : Placement.ofSource source = .ok placement)
    (hn : placement.lines.length < 1073741824) {line : PlacedLine} (hl : line ∈ placement.lines)
    {first label : String} {operands : List String}
    (ht : line.tokens = first :: (operands ++ [label])) {op : Op}
    (ho : Op.named? first.toLower = some op) (hj : op.isBranch = true ∨ op = .jal)
    (hi : Immediate.ofToken? label = none) :
    ∃ target, placement.labels.address? label = some target ∧
      (op.format.stores ((target.toNat : Int) - (line.address.toNat : Int)) = true →
        ∀ state : State, state.cpu.pc = line.address →
          (assembly.program.fetch? line.address = some Word.virtualHalt ∧
              state.step assembly.program = (state, .ok (.halted .virtual))) ∨
            ∃ after instruction,
              state.step assembly.program = (after, .ok (.retired instruction)) ∧
              assembly.program.fetch? line.address = some instruction.raw ∧
              instruction.op = op ∧
              (state.cpu.Jumps op operands → after.cpu.pc = target) ∧
              (¬ state.cpu.Jumps op operands → after.cpu.pc = line.address + 4)) := by
  obtain ⟨word, hf, hg⟩ := fetch?_of_ofSource ha hp hn hl
  obtain ⟨instruction, hw, rfl, hs⟩ := PlacedLine.instruction_of_gives hg ht ho
  obtain ⟨⟨value, hd, hm⟩, hjumps⟩ := Site.spells_jump hj hs
  obtain ⟨-, target, htarget, rfl⟩ := hd.resolve_left (by simp [hi])
  refine ⟨target, htarget, fun hstores state hpc => ?_⟩
  have himm : line.address + instruction.imm = target := by
    rw [(Format.stores_iff.1 hstores).2] at hm
    rw [← BitVec.ofInt_toInt (x := instruction.imm), hm]
    exact Word.add_distance line.address target
  by_cases hv : word = Word.virtualHalt
  · subst hv
    refine .inl ⟨hf, ?_⟩
    simp only [State.step, hpc, hf, if_true]
  · obtain ⟨after, hstep, hafter⟩ := State.step_of_jump (hpc ▸ hf) hv hw hj
    rw [hpc, himm] at hafter
    refine .inr ⟨after, instruction, hstep, ?_, rfl, fun hjump => ?_, fun hstay => ?_⟩
    · rw [hf, Instruction.raw_of_ofWord? hw]
    · rw [hafter, if_pos ((hjumps state.cpu).1 hjump)]
    · rw [hafter, if_neg fun h => hstay ((hjumps state.cpu).2 h)]

/-- The jump at the end of a loop goes back to its label. -/
theorem step_to_label_loop :
    ∃ assembly, ofSource "top: addi t0, t0, 1\njal zero, top\nend: beq zero, zero, end" =
        .ok assembly ∧
      ∀ state : State, state.cpu.pc = 4 → ∃ after instruction,
        state.step assembly.program = (after, .ok (.retired instruction)) ∧ after.cpu.pc = 0 := by
  have ha : ofSource "top: addi t0, t0, 1\njal zero, top\nend: beq zero, zero, end" =
      .ok ⟨[0x00128293, 0xFFDFF06F, 0x00000063], [("top", 0), ("end", 8)]⟩ := by
    decide +kernel
  have hp : Placement.ofSource "top: addi t0, t0, 1\njal zero, top\nend: beq zero, zero, end" =
      .ok ⟨[⟨1, 0, ["addi", "t0", "t0", "1"]⟩, ⟨2, 4, ["jal", "zero", "top"]⟩,
        ⟨3, 8, ["beq", "zero", "zero", "end"]⟩], [("top", 0), ("end", 8)]⟩ := by
    decide +kernel
  have hl : (⟨2, 4, ["jal", "zero", "top"]⟩ : PlacedLine) ∈
      [⟨1, 0, ["addi", "t0", "t0", "1"]⟩, ⟨2, 4, ["jal", "zero", "top"]⟩,
        ⟨3, 8, ["beq", "zero", "zero", "end"]⟩] := by decide
  have ht : ["jal", "zero", "top"] = "jal" :: (["zero"] ++ ["top"]) := rfl
  have ho : Op.named? "jal".toLower = some .jal := by decide +kernel
  obtain ⟨target, htarget, h⟩ :=
    step_to_label ha hp (by decide) hl ht ho (.inr rfl) (by decide)
  obtain rfl : 0 = target := Option.some.inj htarget
  refine ⟨_, ha, fun state hpc => ?_⟩
  obtain ⟨hv, -⟩ | ⟨after, instruction, hstep, -, -, hjump, -⟩ := h (by decide) state hpc
  · exact absurd hv (by decide)
  · exact ⟨after, instruction, hstep, hjump (.inl rfl)⟩

end Assembly

end MiniRisc
