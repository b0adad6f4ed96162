import MiniRisc.Proofs.Decoding
import MiniRisc.Proofs.Runs

/-!
# Loads see the latest store

Along a run the data window keeps its base and its size, and holds at every address what the latest
store there has left, or zero. Loads and stores are refused exactly at addresses that are not
multiples of four or fall outside the window, as natural numbers; so a window may start anywhere
and pass the end of the address space.
-/

namespace MiniRisc

/-- A numbered register is another one than register zero, if its number is another. -/
theorem Register.index_ne {register : Byte} (hl : register.toNat < 32) (hz : register ≠ zero) :
    index register ≠ index zero := by
  intro h
  have hn : register.toNat % 32 = zero.toNat % 32 := congrArg Fin.val h
  have hzero : zero.toNat = 0 := rfl
  exact hz (BitVec.eq_of_toNat_eq (by omega))

namespace State

variable {program : Program} {state after : State} {instruction : Instruction}

/-- A load or store retires if memory has a place for its address, and is refused otherwise. -/
theorem step_of_access (hi : At program state instruction)
    (ho : instruction.op = .lw ∨ instruction.op = .sw) :
    (∃ place after, state.data.place (state.reach instruction) = .ok place ∧
        state.step program = (after, .ok (.retired instruction))) ∨
      ∃ fault, state.data.place (state.reach instruction) = .error fault ∧
        state.step program = (state, .error (.memory (state.reach instruction) fault)) := by
  have hh : instruction.op ≠ .halt := by
    intro hh
    simp [hh] at ho
  rcases hi.step_cases hh with ⟨after, hs⟩ | ⟨fault, -, hp, hs⟩
  case inr => exact .inr ⟨fault, hp, hs⟩
  case inl =>
    cases hp : state.data.place (state.reach instruction) with
    | ok place => exact .inl ⟨place, after, rfl, hs⟩
    | error fault =>
      -- a place that is missing would have kept the instruction from being executed
      cases does_of_step hs with
      | retired _ _ he =>
        rcases ho with ho | ho
        · obtain ⟨value, hr, -⟩ := execute_load ho he
          have hr' : state.data.read (state.reach instruction) = .ok value := hr
          rw [DataMemory.read_eq_error_iff.2 hp] at hr'
          cases hr'
        · obtain ⟨data, hw, -⟩ := execute_store ho he
          have hw' : state.data.write (state.reach instruction) (state.cpu.get instruction.rs2) =
              .ok data := hw
          rw [DataMemory.write_eq_error_iff.2 hp] at hw'
          cases hw'

/-- A step that retires anything but a store leaves the data as they are. -/
theorem data_of_retired (h : state.step program = (after, .ok (.retired instruction)))
    (hs : instruction.op ≠ .sw) : after.data = state.data := by
  cases does_of_step h with
  | retired _ hh he =>
    have hdata := (pc_data_of_execute hh rfl he).2 hs
    exact hdata

/-- A step that retires a store has written its second register. -/
theorem write_of_retired (h : state.step program = (after, .ok (.retired instruction)))
    (ho : instruction.op = .sw) :
    state.data.write (state.reach instruction) (state.cpu.get instruction.rs2) =
      .ok after.data := by
  cases does_of_step h with
  | retired _ _ he =>
    obtain ⟨data, hw, rfl⟩ := execute_store ho he
    exact hw

/-- A step that retires a load has read memory, and leaves the word in the register of the load
unless that is register zero. -/
theorem read_of_retired (h : state.step program = (after, .ok (.retired instruction)))
    (ho : instruction.op = .lw) :
    ∃ value, state.data.read (state.reach instruction) = .ok value ∧
      (instruction.rd ≠ Register.zero → after.cpu.get instruction.rd = value) := by
  cases does_of_step h with
  | retired hi _ he =>
    obtain ⟨value, hr, rfl⟩ := execute_load ho he
    obtain ⟨word, -, -, hw⟩ := hi
    refine ⟨value, hr, fun hz => ?_⟩
    have hne := Register.index_ne (Instruction.lt_of_ofWord? hw).1 hz
    calc (((state.goTo (state.cpu.pc + 4)).set instruction.rd value).set Register.zero 0).cpu.get
          instruction.rd
        = ((state.goTo (state.cpu.pc + 4)).set instruction.rd value).cpu.get instruction.rd :=
          (Cpu.get_set _ _ _ _).trans (if_neg hne)
      _ = value := (Cpu.get_set _ _ _ _).trans (if_pos rfl)

end State

/-- The latest value that was stored at an address, and zero if none was. -/
def latestStore (address : Word) : List (Retirement Machine) → Word
  | [] => 0
  | latest :: earlier =>
    if latest.instruction.op = .sw ∧ latest.before.state.reach latest.instruction = address then
      latest.before.state.cpu.get latest.instruction.rs2
    else latestStore address earlier

/-- What holds of a run of a machine between two steps: it has its program, no limit and its data
window, which holds what was stored. -/
structure Recalls (program : Program) (config : Config) (past : List (Retirement Machine))
    (machine : Machine) : Prop where
  /-- The program stays. -/
  program_eq : machine.program = program
  /-- There is no limit. -/
  unlimited : machine.limit = none
  /-- The window stays where it is. -/
  base_eq : machine.state.data.base = config.dataBase
  /-- The window keeps its size. -/
  size_eq : machine.state.data.words.size = config.dataWords
  /-- A word that can be read is the latest that was stored there. -/
  content : ∀ address value, machine.state.data.read address = .ok value →
    value = latestStore address past

namespace Recalls

variable {program : Program} {config : Config} {past : List (Retirement Machine)}
  {machine : Machine}

/-- The window starts with zeros. -/
theorem start (program : Program) (config : Config) :
    Recalls program config [] (Machine.start program config) where
  program_eq := rfl
  unlimited := rfl
  base_eq := rfl
  size_eq := Array.size_replicate
  content := by
    intro address value hr
    obtain ⟨-, -, hv⟩ := DataMemory.read_eq_ok_iff.1 hr
    exact (Array.eq_of_mem_replicate (Array.mem_of_getElem? hv))

/-- A step that retires an instruction keeps the window, and a store is the latest at its address
and nowhere else. -/
theorem retired {next : Machine} {instruction : Instruction}
    (h : Recalls program config past machine)
    (hs : machine.step = (next, .ok (.retired instruction))) :
    Recalls program config (⟨machine, instruction, next⟩ :: past) next := by
  cases Machine.does_of_step hs with
  | @retired state _ _ hstep =>
    by_cases ho : instruction.op = .sw
    case neg =>
      have hdata := State.data_of_retired hstep ho
      refine ⟨h.program_eq, h.unlimited, ?_, ?_, fun address value hr => ?_⟩
      · exact (congrArg DataMemory.base hdata).trans h.base_eq
      · exact (congrArg (fun data => data.words.size) hdata).trans h.size_eq
      · have hr' : machine.state.data.read address = .ok value := hdata ▸ hr
        rw [latestStore, if_neg fun hc => ho hc.1]
        exact h.content address value hr'
    case pos =>
      have hw := State.write_of_retired hstep ho
      refine ⟨h.program_eq, h.unlimited, ?_, ?_, fun address value hr => ?_⟩
      · exact (DataMemory.base_write hw).trans h.base_eq
      · exact (DataMemory.size_write hw).trans h.size_eq
      · rw [latestStore]
        split
        case isTrue hc =>
          have hr' : state.data.read address = .ok value := hr
          rw [← hc.2, DataMemory.read_write hw] at hr'
          exact (Except.ok.inj hr').symm
        case isFalse hc =>
          have hne : address ≠ machine.state.reach instruction := fun he => hc ⟨ho, he.symm⟩
          exact h.content address value ((DataMemory.read_write_of_ne hw hne).1 hr)

/-- A step that retires nothing changes the count of steps at most. -/
theorem idle {next : Machine} {outcome : Except Trap Step} (h : Recalls program config past machine)
    (hs : machine.step = (next, outcome))
    (hn : ∀ instruction, outcome ≠ .ok (.retired instruction)) :
    Recalls program config past next := by
  cases Machine.does_of_step hs with
  | retired => exact absurd rfl (hn _)
  | refused | trapped => exact h
  | halted => exact ⟨h.program_eq, h.unlimited, h.base_eq, h.size_eq, h.content⟩

/-- A run from the start recalls what was stored. -/
theorem of_run (program : Program) (config : Config) (count : Nat) :
    Recalls program config (Stepper.past Machine.step (Machine.start program config) count)
      (Stepper.after Machine.step (Machine.start program config) count) := by
  refine Stepper.run_induction Machine.step _ (motive := Recalls program config)
    ?start ?retired ?idle count
  case start => exact Recalls.start program config
  case retired => exact fun _ _ _ _ h hs => h.retired hs
  case idle => exact fun _ _ _ _ h hs hn => h.idle hs hn

/-- The window covers the addresses that the set-up gives it. -/
theorem covers_iff (h : Recalls program config past machine) {address : Word} :
    machine.state.data.Covers address ↔ config.dataBase.toNat ≤ address.toNat ∧
      address.toNat < config.dataBase.toNat + 4 * config.dataWords := by
  rw [DataMemory.Covers, h.base_eq, h.size_eq]

/-- A machine without a limit retires a load or store if memory has a place for its address, and
traps otherwise. -/
theorem step_of_access (h : Recalls program config past machine) {instruction : Instruction}
    (hi : machine.state.At program instruction)
    (ho : instruction.op = .lw ∨ instruction.op = .sw) :
    (∃ place after, machine.state.data.place (machine.state.reach instruction) = .ok place ∧
        machine.step = (after, .ok (.retired instruction))) ∨
      ∃ fault, machine.state.data.place (machine.state.reach instruction) = .error fault ∧
        machine.step =
          (machine, .error (.memory (machine.state.reach instruction) fault)) := by
  have hl : machine.limitReached? = none :=
    Machine.limitReached?_eq_none_iff.2 fun limit hs => absurd (h.unlimited.symm.trans hs) (by simp)
  have hprogram := h.program_eq
  rcases State.step_of_access hi ho with ⟨place, after, hp, hs⟩ | ⟨fault, hp, hs⟩
  · exact .inl ⟨place, _, hp, Machine.step_of_ok hl (hprogram ▸ hs)⟩
  · exact .inr ⟨fault, hp, Machine.step_of_error hl (hprogram ▸ hs)⟩

/-- A load or store that memory refuses traps for the reason that memory gives. -/
theorem step_of_refused (h : Recalls program config past machine) {instruction : Instruction}
    (hi : machine.state.At program instruction)
    (ho : instruction.op = .lw ∨ instruction.op = .sw) {fault : MemoryFault}
    (hf : machine.state.data.place (machine.state.reach instruction) = .error fault) :
    machine.step = (machine, .error (.memory (machine.state.reach instruction) fault)) := by
  rcases h.step_of_access hi ho with ⟨place, _, hp, -⟩ | ⟨fault', hp, hs⟩
  · cases hf.symm.trans hp
  · cases hf.symm.trans hp
    exact hs

/-- A load or store retires exactly if memory has a place for its address. -/
theorem retires_iff (h : Recalls program config past machine) {instruction : Instruction}
    (hi : machine.state.At program instruction)
    (ho : instruction.op = .lw ∨ instruction.op = .sw) :
    (∃ after, machine.step = (after, .ok (.retired instruction))) ↔
      ∃ place, machine.state.data.place (machine.state.reach instruction) = .ok place := by
  rcases h.step_of_access hi ho with ⟨place, after, hp, hs⟩ | ⟨fault, hp, hs⟩
  · exact ⟨fun _ => ⟨place, hp⟩, fun _ => ⟨after, hs⟩⟩
  · simp [hp, hs]

/-- A load that retires leaves the latest value that was stored at its address. -/
theorem load_eq (h : Recalls program config past machine) {next : Machine}
    {instruction : Instruction} (hs : machine.step = (next, .ok (.retired instruction)))
    (ho : instruction.op = .lw) (hz : instruction.rd ≠ Register.zero) :
    next.state.cpu.get instruction.rd =
      latestStore (machine.state.reach instruction) past := by
  cases Machine.does_of_step hs with
  | retired _ hstep =>
    obtain ⟨value, hr, hget⟩ := State.read_of_retired hstep ho
    exact (hget hz).trans (h.content _ value hr)

end Recalls

/-- In a run from the start, a load or store that is reached retires exactly if its address is a
multiple of four in the window, compared as natural numbers, and traps without effect otherwise. A
load that retires leaves in its register, unless that is register zero, what the latest store to
its address has stored, or zero. A store that retires is not seen at any other address. -/
theorem Machine.access_of_run (program : Program) (config : Config) (count : Nat)
    {machine : Machine}
    (hm : machine = Stepper.after Machine.step (Machine.start program config) count)
    {instruction : Instruction} (hi : machine.state.At program instruction)
    (ho : instruction.op = .lw ∨ instruction.op = .sw)
    {address : Word} (ha : address = machine.state.reach instruction) :
    ((∃ after, machine.step = (after, .ok (.retired instruction))) ↔
      address.toNat % 4 = 0 ∧ config.dataBase.toNat ≤ address.toNat ∧
        address.toNat < config.dataBase.toNat + 4 * config.dataWords) ∧
    (address.toNat % 4 ≠ 0 →
      machine.step = (machine, .error (.memory address (.unaligned address)))) ∧
    (address.toNat % 4 = 0 →
      ¬ (config.dataBase.toNat ≤ address.toNat ∧
        address.toNat < config.dataBase.toNat + 4 * config.dataWords) →
      machine.step = (machine, .error (.memory address (.unmapped address config.dataBase
        (config.dataBase + BitVec.ofNat 32 (4 * config.dataWords)))))) ∧
    ∀ after, machine.step = (after, .ok (.retired instruction)) →
      (instruction.op = .lw → instruction.rd ≠ Register.zero →
        after.state.cpu.get instruction.rd = latestStore address
          (Stepper.past Machine.step (Machine.start program config) count)) ∧
      (instruction.op = .sw → ∀ other value, other ≠ address →
        (after.state.data.read other = .ok value ↔
          machine.state.data.read other = .ok value)) := by
  subst ha
  have h : Recalls program config (Stepper.past Machine.step (Machine.start program config) count)
      machine := hm ▸ Recalls.of_run program config count
  refine ⟨?_, fun hu => ?_, fun hu hn => ?_, fun after hs => ⟨fun hw hz => ?_, fun hw => ?_⟩⟩
  · rw [h.retires_iff hi ho, DataMemory.exists_place_iff, h.covers_iff]
  · exact h.step_of_refused hi ho (DataMemory.place_of_unaligned hu)
  · have hf := DataMemory.place_of_uncovered hu (mt h.covers_iff.1 hn)
    have hs := h.step_of_refused hi ho hf
    rwa [DataMemory.endAddress, h.base_eq, h.size_eq] at hs
  · exact h.load_eq hs hw hz
  · intro other value hne
    cases Machine.does_of_step hs with
    | retired _ hstep =>
      exact DataMemory.read_write_of_ne (State.write_of_retired hstep hw) hne

/-- A store to the last word of the address space and a load from there. -/
def Program.storeAndLoad : Program := ⟨#[0xFFC00293, 0x00700313, 0x0062A023, 0x0002A503]⟩

/-- A window from an odd address past the end of the address space. -/
def Config.wrapped : Config := { dataBase := 0xFFFFFFF9, dataWords := 4 }

/-- The load of the last word gives what was stored there. -/
theorem Machine.access_of_run_wrapped :
    ∃ after instruction,
      (Stepper.after step (start Program.storeAndLoad Config.wrapped) 3).step =
        (after, .ok (.retired instruction)) ∧ instruction.op = .lw ∧
      after.state.cpu.get instruction.rd = 7 := by
  have hi : (Stepper.after step (start Program.storeAndLoad Config.wrapped) 3).state.At
      Program.storeAndLoad
      { op := .lw, format := .I, raw := 0x0002A503, rd := 10, rs1 := 5, imm := 0 } :=
    ⟨0x0002A503, by rfl, by decide, by decide⟩
  have ha : (0xFFFFFFFC : Word) =
      (Stepper.after step (start Program.storeAndLoad Config.wrapped) 3).state.reach
        { op := .lw, format := .I, raw := 0x0002A503, rd := 10, rs1 := 5, imm := 0 } := by rfl
  obtain ⟨hretires, -, -, hload⟩ :=
    access_of_run Program.storeAndLoad Config.wrapped 3 rfl hi (.inl rfl) ha
  obtain ⟨after, hs⟩ := hretires.2 (by decide)
  exact ⟨after, _, hs, rfl, (hload after hs).1 rfl (by decide)⟩

end MiniRisc
