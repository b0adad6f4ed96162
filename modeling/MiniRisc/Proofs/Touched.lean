import MiniRisc.Proofs.Arithmetic
import MiniRisc.Proofs.LatestStore

/-!
# What a step leaves alone

An instruction that is retired writes its destination, register zero, the program counter and, if it
stores, one word of the data; all else is as it was. Register zero is zero at the start and after
every instruction, and steps that retire nothing keep the registers, so no instruction of a run ever
reads anything else from it.
-/

namespace MiniRisc

/-- The formats of branches and stores have no destination. -/
theorem Instruction.rd_of_ofWord? {word : Word} {instruction : Instruction}
    (h : Instruction.ofWord? word = some instruction)
    (ho : instruction.op.isBranch = true ∨ instruction.op = .sw) :
    instruction.rd = Register.zero := by
  obtain ⟨-, rfl⟩ | ⟨-, rfl⟩ | ⟨-, rfl⟩ | ⟨op, -, -, rfl⟩ := cases_of_ofWord? h
  case inr.inr.inr =>
    have hop : op.isBranch = true ∨ op = .sw := ho
    cases op <;> simp only [Op.isBranch, Bool.false_eq_true, reduceCtorEq, or_self] at hop
    all_goals rfl
  all_goals simp [Op.isBranch, reversal] at ho

/-- A reset leaves zero in register zero. -/
theorem Cpu.get_zero_reset (cpu : Cpu) : cpu.reset.get Register.zero = 0 := by
  have hne : Register.index Register.zero ≠ Register.index Register.stackPointer := by decide
  rw [reset, get_set, if_neg hne]
  exact Vector.getElem_replicate (Register.index Register.zero).isLt

namespace Machine

/-- What a step that retires an instruction may change in a machine, and what it leaves. -/
structure Touches (before : Machine) (instruction : Instruction) (after : Machine) : Prop where
  /-- Register zero is zero afterwards. -/
  zero : after.state.cpu.get Register.zero = 0
  /-- Unless the instruction is a reset, it keeps all registers but zero and its destination. -/
  registers : instruction.op ≠ .rst → ∀ register,
    Register.index register ≠ Register.index Register.zero →
    Register.index register ≠ Register.index instruction.rd →
      after.state.cpu.get register = before.state.cpu.get register
  /-- A branch or store has register zero as its destination, and only clears that. -/
  bare : instruction.op.isBranch = true ∨ instruction.op = .sw →
    instruction.rd = Register.zero ∧
      after.state.cpu.registers = (before.state.cpu.set Register.zero 0).registers
  /-- The data window stays where it is. -/
  base : after.state.data.base = before.state.data.base
  /-- The data window keeps its size. -/
  size : after.state.data.words.size = before.state.data.words.size
  /-- Unless the instruction is a store, it keeps the data. -/
  data : instruction.op ≠ .sw → after.state.data = before.state.data
  /-- A store replaces the word at its address and no other. -/
  stored : instruction.op = .sw → ∃ place : Fin before.state.data.words.size,
    before.state.data.place (before.state.reach instruction) = .ok place ∧
      after.state.data.words = before.state.data.words.set place
        (before.state.cpu.get instruction.rs2) place.isLt
  /-- The set-up stays. -/
  config : after.state.cpu.config = before.state.cpu.config
  /-- The program stays. -/
  program : after.program = before.program
  /-- Control goes on to the next address, unless the instruction jumps or is a branch that is
  taken. -/
  next : instruction.op ≠ .jal → instruction.op ≠ .jalr →
    ¬ instruction.op.Compares (before.state.cpu.get instruction.rs1)
      (before.state.cpu.get instruction.rs2) →
    after.state.cpu.pc = before.state.cpu.pc + 4

end Machine

namespace State

variable {program : Program} {state after : State} {instruction : Instruction}

/-- A step that retires an instruction leaves zero in register zero. -/
theorem get_zero_of_retired (h : state.step program = (after, .ok (.retired instruction))) :
    after.cpu.get Register.zero = 0 := by
  cases does_of_step h with
  | retired => exact (Cpu.get_set _ _ _ _).trans (if_pos rfl)

/-- Clearing register zero keeps the other registers. -/
theorem get_set_zero (state : State) {register : Byte}
    (hr : Register.index register ≠ Register.index Register.zero) :
    (state.set Register.zero 0).cpu.get register = state.cpu.get register :=
  (Cpu.get_set _ _ _ _).trans (if_neg hr)

/-- A step that retires anything but a reset keeps all registers but zero and its destination. -/
theorem get_of_retired (h : state.step program = (after, .ok (.retired instruction)))
    (ho : instruction.op ≠ .rst) {register : Byte}
    (hz : Register.index register ≠ Register.index Register.zero)
    (hd : Register.index register ≠ Register.index instruction.rd) :
    after.cpu.get register = state.cpu.get register := by
  cases does_of_step h with
  | retired _ hh he =>
    have hothers := (effect_of_execute hh rfl he).others ho register fun _ => hd
    exact (get_set_zero _ hz).trans hothers

/-- A step that retires a branch or store clears register zero and keeps the others. -/
theorem registers_of_retired (h : state.step program = (after, .ok (.retired instruction)))
    (ho : instruction.op.isBranch = true ∨ instruction.op = .sw) :
    after.cpu.registers = (state.cpu.set Register.zero 0).registers := by
  have hw : instruction.op.writes = false ∧ instruction.op ≠ .rst := by
    revert ho
    cases instruction.op <;> decide
  cases does_of_step h with
  | retired _ _ he =>
    have hkept := (registers_of_execute hw.1 hw.2 he).1
    simp only [State.set, Cpu.set, hkept]
    rfl

/-- A step that retires an instruction keeps the set-up. -/
theorem config_of_retired (h : state.step program = (after, .ok (.retired instruction))) :
    after.cpu.config = state.cpu.config := by
  cases does_of_step h with
  | retired _ hh he => exact (effect_of_execute hh rfl he).config

/-- An instruction that neither jumps nor branches goes on to the next address. -/
theorem successor_eq_next (hj : instruction.op ≠ .jal) (hr : instruction.op ≠ .jalr)
    (hb : ¬ instruction.op.Compares (state.cpu.get instruction.rs1)
      (state.cpu.get instruction.rs2)) (here : Word) :
    state.successor instruction here = here + 4 := by
  have hn := mt (instruction.op.taken_iff_compares _ _).1 hb
  unfold successor
  split
  case h_1 ho => exact absurd ho hj
  case h_2 ho => exact absurd ho hr
  case h_3 => exact if_neg hn

/-- A step that retires a store replaces the word at its address. -/
theorem words_of_retired (h : state.step program = (after, .ok (.retired instruction)))
    (ho : instruction.op = .sw) :
    ∃ place : Fin state.data.words.size,
      state.data.place (state.reach instruction) = .ok place ∧
        after.data.words =
          state.data.words.set place (state.cpu.get instruction.rs2) place.isLt := by
  obtain ⟨place, hp, hdata⟩ := map_eq_ok.1 (write_of_retired h ho)
  exact ⟨place, hp, congrArg DataMemory.words hdata.symm⟩

end State

namespace Machine

/-- A step that retires an instruction touches what the instruction may touch. -/
theorem touches_of_retired {machine after : Machine} {instruction : Instruction}
    (h : machine.step = (after, .ok (.retired instruction))) :
    machine.Touches instruction after := by
  cases does_of_step h with
  | @retired state _ _ hs =>
    obtain ⟨word, -, -, hw⟩ := State.at_of_retired hs
    have hdata := fun ho => State.data_of_retired hs ho
    have hbase : state.data.base = machine.state.data.base ∧
        state.data.words.size = machine.state.data.words.size := by
      by_cases ho : instruction.op = .sw
      · have hwrite := State.write_of_retired hs ho
        exact ⟨DataMemory.base_write hwrite, DataMemory.size_write hwrite⟩
      · rw [hdata ho]
        exact ⟨rfl, rfl⟩
    exact {
      zero := State.get_zero_of_retired hs
      registers := fun ho _ hz hd => State.get_of_retired hs ho hz hd
      bare := fun ho => ⟨Instruction.rd_of_ofWord? hw ho, State.registers_of_retired hs ho⟩
      base := hbase.1
      size := hbase.2
      data := hdata
      stored := State.words_of_retired hs
      config := State.config_of_retired hs
      program := rfl
      next := fun hj hr hb => (State.pc_of_retired hs).trans (State.successor_eq_next hj hr hb _) }

/-- Register zero is zero after any number of steps from the start, with any limit. -/
theorem get_zero_of_run (program : Program) (config : Config) (limit : Option Nat) (count : Nat) :
    (Stepper.after step { start program config with limit } count).state.cpu.get Register.zero =
      0 := by
  refine Stepper.run_induction step _
    (motive := fun _ machine => machine.state.cpu.get Register.zero = 0) ?start ?retired ?idle count
  case start => exact Cpu.get_zero_reset _
  case retired => exact fun _ _ _ _ _ hs => (touches_of_retired hs).zero
  case idle =>
    intro _ machine outcome next hz hs hn
    cases does_of_step hs with
    | retired => exact absurd rfl (hn _)
    | refused | trapped | halted => exact hz

/-- A step that retires an instruction touches what the instruction may touch, in every machine.
After any number of steps from the start register zero is zero, and an instruction that names it as
a source reads zero. -/
theorem step_touches :
    (∀ (machine after : Machine) (instruction : Instruction),
      machine.step = (after, .ok (.retired instruction)) → machine.Touches instruction after) ∧
    ∀ (program : Program) (config : Config) (limit : Option Nat) (count : Nat)
        (machine : Machine),
      machine = Stepper.after step { start program config with limit } count →
        machine.state.cpu.get Register.zero = 0 ∧
        ∀ instruction, machine.state.At machine.program instruction →
          (instruction.rs1 = Register.zero → machine.state.cpu.get instruction.rs1 = 0) ∧
            (instruction.rs2 = Register.zero → machine.state.cpu.get instruction.rs2 = 0) := by
  refine ⟨fun _ _ _ h => touches_of_retired h, fun program config limit count machine hm => ?_⟩
  have hz := get_zero_of_run program config limit count
  rw [← hm] at hz
  exact ⟨hz, fun instruction _ => ⟨fun hs => hs ▸ hz, fun hs => hs ▸ hz⟩⟩

end Machine

/-- The start of the data goes to a register, five to register zero, the sum of two zeros to another
register, and the start of the data into the second data word. -/
def Program.writesToZero : Program :=
  ⟨#[0x00010337, 0x00500013, 0x000002B3, 0x00632223]⟩

/-- The store changes the second data word and no register, and the sum before it reads zero
although the instruction before that writes to register zero. -/
theorem Machine.step_touches_store :
    (∃ after instruction, (Stepper.after step (start Program.writesToZero {}) 3).step =
        (after, .ok (.retired instruction)) ∧ instruction.op = .sw ∧
      after.state.data.words[1]? = some 0x10000 ∧ after.state.cpu.get 6 = 0x10000 ∧
      after.state.cpu.pc = 16) ∧
    ∃ instruction, (Stepper.after step (start Program.writesToZero {}) 2).state.At
        Program.writesToZero instruction ∧ instruction.op = .add ∧
      instruction.rs1 = Register.zero ∧
      (Stepper.after step (start Program.writesToZero {}) 2).state.cpu.get instruction.rs1 = 0 := by
  constructor
  · have hs : (Stepper.after step (start Program.writesToZero {}) 3).step =
        ((Stepper.after step (start Program.writesToZero {}) 3).step.1, .ok (.retired
          { op := .sw, format := .S, raw := 0x00632223, rs1 := 6, rs2 := 6, imm := 4 })) :=
      Prod.ext rfl (by rfl)
    have ht := step_touches.1 _ _ _ hs
    obtain ⟨place, hp, hw⟩ := ht.stored rfl
    have hplace : place = ⟨1, by decide⟩ := Except.ok.inj (hp.symm.trans (by rfl))
    refine ⟨_, _, hs, rfl, ?_, ?_, ?_⟩
    · rw [hw, hplace]
      rfl
    · exact (ht.registers (by decide) 6 (by decide) (by decide)).trans (by rfl)
    · exact (ht.next (by decide) (by decide) (by decide)).trans (by rfl)
  · have hi : (Stepper.after step (start Program.writesToZero {}) 2).state.At
        Program.writesToZero { op := .add, format := .R, raw := 0x000002B3, rd := 5 } :=
      ⟨0x000002B3, by rfl, by decide, by decide⟩
    obtain ⟨-, hreads⟩ := step_touches.2 Program.writesToZero {} none 2 _ rfl
    exact ⟨_, hi, rfl, rfl, (hreads _ hi).1 rfl⟩

end MiniRisc
