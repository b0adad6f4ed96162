import MiniRisc.Machine
import MiniRisc.Proofs.DataWindow

/-!
# What a step can do

A step does one of six things: it finds no instruction, stops at either halt, finds a word that
stands for nothing, has its load or store refused, or retires its instruction. Only the last
changes the state, and then the program counter goes where the instruction sends it. A machine
adds its limit before and its count after.
-/

namespace MiniRisc

namespace State

/-- The address that an instruction fetched from `here` goes on to. -/
def successor (state : State) (instruction : Instruction) (here : Word) : Word :=
  match instruction.op with
  | .jal => here + instruction.imm
  | .jalr => state.cpu.get instruction.rs1 + instruction.imm
  | op =>
    if op.taken (state.cpu.get instruction.rs1) (state.cpu.get instruction.rs2) then
      here + instruction.imm
    else here + 4

/-- The address that a load or store reaches. -/
def reach (state : State) (instruction : Instruction) : Word :=
  state.cpu.get instruction.rs1 + instruction.imm

/-- The program counter is at an instruction and not at the word that halts. -/
def At (program : Program) (state : State) (instruction : Instruction) : Prop :=
  ∃ word, program.fetch? state.cpu.pc = some word ∧ word ≠ Word.virtualHalt ∧
    Instruction.ofWord? word = some instruction

/-- What a step leaves behind and what it comes to. -/
inductive Does (program : Program) (state : State) : State → Except Trap Step → Prop
  /-- There is no instruction. -/
  | lost (hf : program.fetch? state.cpu.pc = none) :
    Does program state state (.error (.noInstruction state.cpu.pc))
  /-- The word is the branch to itself. -/
  | virtualHalt (hf : program.fetch? state.cpu.pc = some Word.virtualHalt) :
    Does program state state (.ok (.halted .virtual))
  /-- The word stands for no instruction. -/
  | unrecognized {word : Word} (hf : program.fetch? state.cpu.pc = some word)
      (hv : word ≠ Word.virtualHalt) (hw : Instruction.ofWord? word = none) :
    Does program state state (.error (.unrecognized state.cpu.pc word))
  /-- The instruction is a halt. -/
  | explicitHalt {instruction : Instruction} (hi : At program state instruction)
      (hh : instruction.op = .halt) : Does program state state (.ok (.halted .explicit))
  /-- Memory refuses the load or store. -/
  | refused {instruction : Instruction} {fault : MemoryFault} (hi : At program state instruction)
      (ho : instruction.op = .lw ∨ instruction.op = .sw)
      (hf : state.data.place (state.reach instruction) = .error fault) :
    Does program state state (.error (.memory (state.reach instruction) fault))
  /-- The instruction is executed. -/
  | retired {instruction : Instruction} {after : State} (hi : At program state instruction)
      (hh : instruction.op ≠ .halt)
      (he : (state.goTo (state.cpu.pc + 4)).execute instruction state.cpu.pc = (after, none)) :
    Does program state (after.set Register.zero 0) (.ok (.retired instruction))

/-- An instruction traps if it is a load or store that memory refuses. -/
theorem refused_of_execute {state after : State} {instruction : Instruction} {here : Word}
    {trap : Trap} (h : state.execute instruction here = (after, some trap)) :
    (instruction.op = .lw ∨ instruction.op = .sw) ∧
      ∃ fault, state.data.place (state.reach instruction) = .error fault ∧
        trap = .memory (state.reach instruction) fault := by
  obtain ⟨op, format, raw, rd, rs1, rs2, imm⟩ := instruction
  cases op
  case lw =>
    simp only [execute, load] at h
    split at h
    case h_1 => cases h
    case h_2 fault hf =>
      refine ⟨.inl rfl, fault, DataMemory.read_eq_error_iff.1 hf, ?_⟩
      exact (Option.some.inj (Prod.mk.inj h).2).symm
  case sw =>
    simp only [execute, store] at h
    split at h
    case h_1 => cases h
    case h_2 fault hf =>
      refine ⟨.inr rfl, fault, DataMemory.write_eq_error_iff.1 hf, ?_⟩
      exact (Option.some.inj (Prod.mk.inj h).2).symm
  all_goals cases h

/-- A step does one of these things. -/
theorem does_step (program : Program) (state : State) :
    state.Does program (state.step program).1 (state.step program).2 := by
  unfold step
  dsimp only
  split
  case h_1 hf => exact .lost hf
  case h_2 word hf =>
    split
    case isTrue hv => exact .virtualHalt (hv ▸ hf)
    case isFalse hv =>
      split
      case h_1 hw => exact .unrecognized hf hv hw
      case h_2 instruction hw =>
        have hi : At program state instruction := ⟨word, hf, hv, hw⟩
        split
        case isTrue hh => exact .explicitHalt hi hh
        case isFalse hh =>
          split
          case h_1 after trap he =>
            obtain ⟨ho, fault, hp, rfl⟩ := refused_of_execute he
            obtain rfl := execute_of_trap he
            exact .refused hi ho hp
          case h_2 after he => exact .retired hi hh he

/-- What a step comes to is one of these things. -/
theorem does_of_step {program : Program} {state after : State} {outcome : Except Trap Step}
    (h : state.step program = (after, outcome)) : state.Does program after outcome := by
  have hd := does_step program state
  rwa [h] at hd

/-- A program counter is at one instruction at most. -/
theorem At.unique {program : Program} {state : State} {first second : Instruction}
    (hf : At program state first) (hs : At program state second) : first = second := by
  obtain ⟨word, hfetch, -, hw⟩ := hf
  obtain ⟨word', hfetch', -, hw'⟩ := hs
  obtain rfl := Option.some.inj (hfetch.symm.trans hfetch')
  exact Option.some.inj (hw.symm.trans hw')

/-- At an instruction that is no halt a step retires it, or it is a load or store that memory
refuses. -/
theorem At.step_cases {program : Program} {state : State} {instruction : Instruction}
    (hi : At program state instruction) (hh : instruction.op ≠ .halt) :
    (∃ after, state.step program = (after, .ok (.retired instruction))) ∨
      ∃ fault, (instruction.op = .lw ∨ instruction.op = .sw) ∧
        state.data.place (state.reach instruction) = .error fault ∧
        state.step program = (state, .error (.memory (state.reach instruction) fault)) := by
  obtain ⟨word, hf, hv, hw⟩ := id hi
  have hs : state.step program = ((state.step program).1, (state.step program).2) := rfl
  have hd := does_step program state
  generalize (state.step program).1 = next, (state.step program).2 = outcome at hs hd
  cases hd with
  | lost hf' => cases hf.symm.trans hf'
  | virtualHalt hf' => exact absurd (Option.some.inj (hf.symm.trans hf')) hv
  | unrecognized hf' _ hw' =>
    obtain rfl := Option.some.inj (hf.symm.trans hf')
    cases hw.symm.trans hw'
  | explicitHalt hi' hh' => exact absurd (hi.unique hi' ▸ hh') hh
  | refused hi' ho hp =>
    obtain rfl := hi.unique hi'
    exact .inr ⟨_, ho, hp, hs⟩
  | retired hi' _ _ =>
    obtain rfl := hi.unique hi'
    exact .inl ⟨_, hs⟩

/-- A load that is executed leaves what memory holds in its register. -/
theorem execute_load {state after : State} {instruction : Instruction} {here : Word}
    (ho : instruction.op = .lw) (h : state.execute instruction here = (after, none)) :
    ∃ value, state.data.read (state.reach instruction) = .ok value ∧
      after = state.set instruction.rd value := by
  simp only [execute, ho, load] at h
  split at h
  case h_1 value hr => exact ⟨value, hr, (Prod.mk.inj h).1.symm⟩
  case h_2 => cases h

/-- A store that is executed changes the data and nothing else. -/
theorem execute_store {state after : State} {instruction : Instruction} {here : Word}
    (ho : instruction.op = .sw) (h : state.execute instruction here = (after, none)) :
    ∃ data, state.data.write (state.reach instruction) (state.cpu.get instruction.rs2) = .ok data ∧
      after = { state with data } := by
  simp only [execute, ho, store] at h
  split at h
  case h_1 data hw => exact ⟨data, hw, (Prod.mk.inj h).1.symm⟩
  case h_2 => cases h

/-- An instruction that is executed goes on to its successor, and leaves the data as they are
unless it stores. -/
theorem pc_data_of_execute {state after : State} {instruction : Instruction} {here : Word}
    (hh : instruction.op ≠ .halt) (hp : state.cpu.pc = here + 4)
    (h : state.execute instruction here = (after, none)) :
    after.cpu.pc = state.successor instruction here ∧
      (instruction.op ≠ .sw → after.data = state.data) := by
  cases ho : instruction.op
  case halt => exact absurd ho hh
  case lw =>
    obtain ⟨value, -, rfl⟩ := execute_load ho h
    rw [successor, ho]
    exact ⟨hp, fun _ => rfl⟩
  case sw =>
    obtain ⟨data, -, rfl⟩ := execute_store ho h
    rw [successor, ho]
    exact ⟨hp, fun hs => absurd rfl hs⟩
  all_goals
    simp only [execute, ho, retire, Prod.mk.injEq, and_true] at h
    subst h
    rw [successor, ho]
  case beq | bne | blt | bge | bltu | bgeu =>
    dsimp only
    split
    case isTrue => exact ⟨rfl, fun _ => rfl⟩
    case isFalse => exact ⟨hp, fun _ => rfl⟩
  case jal | jalr => exact ⟨rfl, fun _ => rfl⟩
  all_goals exact ⟨hp, fun _ => rfl⟩

/-- A step that retires an instruction goes on to its successor. -/
theorem pc_of_retired {program : Program} {state after : State} {instruction : Instruction}
    (h : state.step program = (after, .ok (.retired instruction))) :
    after.cpu.pc = state.successor instruction state.cpu.pc := by
  cases does_of_step h with
  | retired _ hh he =>
    have hpc := (pc_data_of_execute hh rfl he).1
    exact hpc

/-- An instruction that a step retires stands at its program counter. -/
theorem at_of_retired {program : Program} {state after : State} {instruction : Instruction}
    (h : state.step program = (after, .ok (.retired instruction))) :
    At program state instruction := by
  cases does_of_step h with
  | retired hi _ _ => exact hi

/-- A step that retires no instruction leaves the state as it is. -/
theorem eq_of_not_retired {program : Program} {state after : State} {outcome : Except Trap Step}
    (h : state.step program = (after, outcome))
    (hn : ∀ instruction, outcome ≠ .ok (.retired instruction)) : after = state := by
  cases does_of_step h with
  | retired => exact absurd rfl (hn _)
  | lost | virtualHalt | unrecognized | explicitHalt | refused => rfl

end State

namespace Machine

/-- What a step of a machine leaves behind and what it comes to. -/
inductive Does (machine : Machine) : Machine → Except Trap Step → Prop
  /-- The limit is reached. -/
  | refused {limit : Nat} (hl : machine.limitReached? = some limit) :
    Does machine machine (.error (.stepLimit limit))
  /-- The processor traps. -/
  | trapped {trap : Trap} (hl : machine.limitReached? = none)
      (hs : machine.state.step machine.program = (machine.state, .error trap)) :
    Does machine machine (.error trap)
  /-- The processor stops. -/
  | halted {kind : Halt} (hl : machine.limitReached? = none)
      (hs : machine.state.step machine.program = (machine.state, .ok (.halted kind))) :
    Does machine { machine with steps := machine.steps + 1 } (.ok (.halted kind))
  /-- The processor executes an instruction. -/
  | retired {state : State} {instruction : Instruction} (hl : machine.limitReached? = none)
      (hs : machine.state.step machine.program = (state, .ok (.retired instruction))) :
    Does machine { machine with state, steps := machine.steps + 1 } (.ok (.retired instruction))

/-- A step of a machine does one of these things. -/
theorem does_step (machine : Machine) : machine.Does machine.step.1 machine.step.2 := by
  unfold step
  split
  case h_1 limit hl => exact .refused hl
  case h_2 hl =>
    split
    case h_1 state trap hs =>
      obtain rfl := State.eq_of_not_retired hs (by simp)
      exact .trapped hl hs
    case h_2 state outcome hs =>
      cases outcome with
      | halted kind =>
        obtain rfl := State.eq_of_not_retired hs (by simp)
        exact .halted hl hs
      | retired instruction => exact .retired hl hs

/-- What a step of a machine comes to is one of these things. -/
theorem does_of_step {machine after : Machine} {outcome : Except Trap Step}
    (h : machine.step = (after, outcome)) : machine.Does after outcome := by
  have hd := does_step machine
  rwa [h] at hd

/-- Within its limit a machine goes on as its processor does, and counts the step. -/
theorem step_of_ok {machine : Machine} {state : State} {outcome : Step}
    (hl : machine.limitReached? = none)
    (hs : machine.state.step machine.program = (state, .ok outcome)) :
    machine.step = ({ machine with state, steps := machine.steps + 1 }, .ok outcome) := by
  simp only [step, hl, hs]

/-- Within its limit a machine traps as its processor does. -/
theorem step_of_error {machine : Machine} {trap : Trap} (hl : machine.limitReached? = none)
    (hs : machine.state.step machine.program = (machine.state, .error trap)) :
    machine.step = (machine, .error trap) := by
  simp only [step, hl, hs]

/-- A machine refuses to go on once it has a limit and has taken as many steps. -/
theorem limitReached?_eq_some_iff {machine : Machine} {limit : Nat} :
    machine.limitReached? = some limit ↔ machine.limit = some limit ∧ limit ≤ machine.steps := by
  simp only [limitReached?, Option.filter_eq_some_iff, decide_eq_true_eq]

/-- A machine goes on if its limit, if any, is beyond the steps it has taken. -/
theorem limitReached?_eq_none_iff {machine : Machine} :
    machine.limitReached? = none ↔
      ∀ limit, machine.limit = some limit → machine.steps < limit := by
  simp only [limitReached?, Option.filter_eq_none_iff, decide_eq_true_eq, Nat.not_le]

end Machine

end MiniRisc
