import MiniRisc.Proofs.Reachability
import MiniRisc.Proofs.Runs

/-!
# The walk covers every run

Control goes along the edges of the instructions that it passes, but for jumps to an address from a
register. If these land only on entries and behind earlier calls, then a run from an entry passes
reached addresses alone: a call that was passed is reached, and it has an edge to the next
instruction. A walk that may visit all words therefore visits every instruction of the run, has an
edge for every other move, and has every address where the run stops as an exit.
-/

namespace MiniRisc

/-- A jump that keeps the address behind it in a register. -/
def Instruction.Calls (instruction : Instruction) : Prop :=
  (instruction.op = .jal ∨ instruction.op = .jalr) ∧ instruction.rd ≠ Register.zero

/-- Every jump to an address from a register has landed on an entry, or behind a call that was
retired before it. -/
def LandsKnown (entries : List Word) (past : List (Retirement State)) : Prop :=
  ∀ jump earlier, jump :: earlier <:+ past → jump.instruction.op = .jalr →
    jump.after.cpu.pc ∈ entries ∨
      ∃ call ∈ earlier, call.instruction.Calls ∧ jump.after.cpu.pc = call.before.cpu.pc + 4

/-- What holds of a part of the past is what holds of the whole. -/
theorem LandsKnown.of_suffix {entries : List Word} {past more : List (Retirement State)}
    (h : LandsKnown entries more) (hs : past <:+ more) : LandsKnown entries past :=
  fun jump earlier hj => h jump earlier (hj.trans hs)

namespace State

variable {program : Program} {state : State} {instruction : Instruction}

/-- An address with an instruction holds one. -/
theorem At.holds (h : At program state instruction) :
    program.holds state.cpu.pc = true := by
  obtain ⟨word, hf, -, -⟩ := h
  exact Option.isSome_iff_exists.2 ⟨word, hf⟩

/-- The edges from the program counter are those of the instruction there. -/
theorem At.edgesFrom (h : At program state instruction) :
    program.edgesFrom state.cpu.pc = instruction.edgesFrom state.cpu.pc := by
  obtain ⟨word, hf, hv, hw⟩ := h
  simp only [Program.edgesFrom, hf, Word.edgesFrom, if_neg hv, hw]

/-- An instruction that does not jump to an address from a register has an edge to its
successor. -/
theorem edge_to_successor (state : State) {instruction : Instruction} (hh : instruction.op ≠ .halt)
    (hj : instruction.op ≠ .jalr) (here : Word) :
    ∃ edge ∈ instruction.edgesFrom here,
      edge.source = here ∧ edge.target = state.successor instruction here := by
  obtain ⟨op, format, raw, rd, rs1, rs2, imm⟩ := instruction
  cases op
  case halt => exact absurd rfl hh
  case jalr => exact absurd rfl hj
  case jal =>
    by_cases hd : rd = 0
    · refine ⟨⟨here, here + imm, .branch⟩, ?_, rfl, rfl⟩
      simp only [Instruction.edgesFrom, if_pos hd, List.mem_singleton]
    · refine ⟨⟨here, here + imm, .call⟩, ?_, rfl, rfl⟩
      simp only [Instruction.edgesFrom, if_neg hd, List.mem_cons, true_or]
  case beq | bne | blt | bge | bltu | bgeu =>
    simp only [successor]
    split
    case isTrue => exact ⟨_, List.mem_cons_self, rfl, rfl⟩
    case isFalse => exact ⟨_, List.mem_cons_of_mem _ List.mem_cons_self, rfl, rfl⟩
  all_goals exact ⟨_, List.mem_cons_self, rfl, rfl⟩

/-- A call has an edge to the address behind it. -/
theorem edge_behind_call {instruction : Instruction} (hc : instruction.Calls) (here : Word) :
    ∃ edge ∈ instruction.edgesFrom here, edge.target = here + 4 := by
  obtain ⟨op, format, raw, rd, rs1, rs2, imm⟩ := instruction
  obtain ⟨ho, hd⟩ := hc
  have hd' : rd ≠ 0 := hd
  refine ⟨⟨here, here + 4, .fallthrough⟩, ?_, rfl⟩
  rcases ho with rfl | rfl
  · simp only [Instruction.edgesFrom, if_neg hd', List.mem_cons, true_or, or_true]
  · simp only [Instruction.edgesFrom, if_neg hd', List.mem_singleton]

/-- A step that retires an instruction moves along an edge, unless it jumps to an address from a
register. -/
theorem edge_of_retired {after : State}
    (h : state.step program = (after, .ok (.retired instruction)))
    (hj : instruction.op ≠ .jalr) :
    ∃ edge ∈ program.edgesFrom state.cpu.pc,
      edge.source = state.cpu.pc ∧ edge.target = after.cpu.pc := by
  have hpc := pc_of_retired h
  cases does_of_step h with
  | retired hi hh _ =>
    rw [hi.edgesFrom, hpc]
    exact edge_to_successor state hh hj state.cpu.pc

/-- A step that stops is at an address that holds a word and has no edge. -/
theorem edgesFrom_of_halted {after : State} {kind : Halt}
    (h : state.step program = (after, .ok (.halted kind))) :
    program.holds state.cpu.pc = true ∧ program.edgesFrom state.cpu.pc = [] := by
  cases does_of_step h with
  | virtualHalt hf =>
    refine ⟨Option.isSome_iff_exists.2 ⟨_, hf⟩, ?_⟩
    simp only [Program.edgesFrom, hf, Word.edgesFrom, if_true]
  | explicitHalt hi hh =>
    refine ⟨hi.holds, ?_⟩
    rw [hi.edgesFrom, Instruction.edgesFrom, hh]

/-- A step that finds a word that stands for no instruction is at an address without an edge. -/
theorem edgesFrom_of_unrecognized {after : State} {pc word : Word}
    (h : state.step program = (after, .error (.unrecognized pc word))) :
    pc = state.cpu.pc ∧ program.holds state.cpu.pc = true ∧
      program.edgesFrom state.cpu.pc = [] := by
  cases does_of_step h with
  | unrecognized hf hv hw =>
    refine ⟨rfl, Option.isSome_iff_exists.2 ⟨_, hf⟩, ?_⟩
    simp only [Program.edgesFrom, hf, Word.edgesFrom, if_neg hv, hw]

end State

/-- What holds of a run between two steps: it has passed reached addresses alone, and what it comes
to next is reached if it holds an instruction. -/
structure Guided (program : Program) (entries : List Word) (past : List (Retirement State))
    (state : State) : Prop where
  /-- The past is made of steps. -/
  steps : ∀ passed ∈ past,
    passed.before.step program = (passed.after, .ok (.retired passed.instruction))
  /-- What was passed is reached. -/
  passed_reached : ∀ passed ∈ past, program.Reached entries passed.before.cpu.pc
  /-- What comes next is reached. -/
  next_reached : program.holds state.cpu.pc = true → program.Reached entries state.cpu.pc

namespace Guided

variable {program : Program} {entries : List Word} {past : List (Retirement State)} {state : State}

/-- A run starts at an entry. -/
theorem start (h : state.cpu.pc ∈ entries) : Guided program entries [] state where
  steps := by simp
  passed_reached := by simp
  next_reached := .entry h

/-- A step that retires an instruction is guided: by an edge, or to where its jump may land. -/
theorem retired {next : State} {instruction : Instruction} (h : Guided program entries past state)
    (hs : state.step program = (next, .ok (.retired instruction)))
    (hk : LandsKnown entries (⟨state, instruction, next⟩ :: past)) :
    Guided program entries (⟨state, instruction, next⟩ :: past) next where
  steps := List.forall_mem_cons.2 ⟨hs, h.steps⟩
  passed_reached :=
    List.forall_mem_cons.2 ⟨h.next_reached (State.at_of_retired hs).holds, h.passed_reached⟩
  next_reached := by
    intro hh
    have hr := h.next_reached (State.at_of_retired hs).holds
    by_cases hj : instruction.op = .jalr
    case neg =>
      obtain ⟨edge, he, -, ht⟩ := State.edge_of_retired hs hj
      exact ht ▸ hr.edge he (ht.symm ▸ hh)
    case pos =>
      rcases hk _ _ (List.suffix_refl _) hj with hentry | ⟨call, hc, hcalls, hpc⟩
      · exact .entry hentry hh
      · -- the call is behind us, so it is reached, and its edge leads here
        have hi := State.at_of_retired (h.steps call hc)
        obtain ⟨edge, he, ht⟩ := State.edge_behind_call hcalls call.before.cpu.pc
        have ht' : edge.target = next.cpu.pc := ht.trans hpc.symm
        have hr' := h.passed_reached call hc
        exact ht' ▸ hr'.edge (hi.edgesFrom.symm ▸ he) (ht'.symm ▸ hh)

/-- A run is guided as long as its jumps land where they may. -/
theorem of_run {start : State} (hs : start.cpu.pc ∈ entries) (count : Nat) :
    LandsKnown entries (Stepper.past (State.step program) start count) →
      Guided program entries (Stepper.past (State.step program) start count)
        (Stepper.after (State.step program) start count) := by
  refine Stepper.run_induction (State.step program) start
    (motive := fun past state => LandsKnown entries past → Guided program entries past state)
    ?start ?retired ?idle count
  case start => exact fun _ => Guided.start hs
  case retired =>
    intro past state instruction next ih h hk
    exact (ih (hk.of_suffix (List.suffix_cons _ _))).retired h hk
  case idle =>
    intro past state outcome next ih h hn hk
    obtain rfl := State.eq_of_not_retired h hn
    exact ih hk

end Guided

/-- A walk that may visit as many addresses as there are words covers every run from an entry whose
jumps to addresses from registers land on entries or behind earlier calls: it visits every address
where the run fetches a word, has an edge for every other move, and has the address where the run
stops or finds a word that stands for no instruction among its exits. -/
theorem Program.walk_covers_run {program : Program} {entries : List Word} {limit : Nat}
    (hl : program.words.size ≤ limit) {start : State} (hs : start.cpu.pc ∈ entries) (count : Nat)
    (hk : LandsKnown entries (Stepper.past (State.step program) start count)) :
    (∀ first ≤ count,
      program.holds (Stepper.after (State.step program) start first).cpu.pc = true →
        (Stepper.after (State.step program) start first).cpu.pc ∈
          (program.walk entries limit).visited) ∧
    (∀ passed ∈ Stepper.past (State.step program) start count, passed.instruction.op ≠ .jalr →
      ∃ edge ∈ (program.walk entries limit).edges,
        edge.source = passed.before.cpu.pc ∧ edge.target = passed.after.cpu.pc) ∧
    (∀ kind, ((Stepper.after (State.step program) start count).step program).2 =
        .ok (.halted kind) →
      (Stepper.after (State.step program) start count).cpu.pc ∈
        (program.walk entries limit).sortedExits) ∧
    ∀ pc word, ((Stepper.after (State.step program) start count).step program).2 =
        .error (.unrecognized pc word) →
      pc ∈ (program.walk entries limit).sortedExits := by
  have hg := Guided.of_run hs count hk
  refine ⟨fun first hf hh => ?_, fun passed hp hj => ?_, fun kind ho => ?_, fun pc word ho => ?_⟩
  · have hk' := hk.of_suffix (Stepper.past_suffix (State.step program) start hf)
    exact mem_visited_of_reached hl ((Guided.of_run hs first hk').next_reached hh)
  · obtain ⟨edge, he, hsource, htarget⟩ := State.edge_of_retired (hg.steps passed hp) hj
    have hv := mem_visited_of_reached hl (hg.passed_reached passed hp)
    exact ⟨edge, mem_edges_iff.2 ⟨_, hv, he⟩, hsource, htarget⟩
  · obtain ⟨hh, he⟩ := State.edgesFrom_of_halted (Prod.ext rfl ho)
    exact mem_sortedExits_iff.2 ⟨mem_visited_of_reached hl (hg.next_reached hh), he⟩
  · obtain ⟨rfl, hh, he⟩ := State.edgesFrom_of_unrecognized (Prod.ext rfl ho)
    exact mem_sortedExits_iff.2 ⟨mem_visited_of_reached hl (hg.next_reached hh), he⟩

/-- A call over a halt, to an instruction that returns to it. -/
def Program.callAndReturn : Program := ⟨#[0x008000EF, Word.virtualHalt, 0x00008067]⟩

/-- A call and its return stay on the walk from the start of the program, and the halt behind the
call is an exit of the walk. -/
theorem Program.walk_covers_run_call :
    LandsKnown [0] (Stepper.past (State.step callAndReturn)
        (Machine.start callAndReturn {}).state 2) ∧
      (4 : Word) ∈ (callAndReturn.walk [0] 3).visited ∧
      (4 : Word) ∈ (callAndReturn.walk [0] 3).sortedExits := by
  have hk : LandsKnown [0] (Stepper.past (State.step callAndReturn)
      (Machine.start callAndReturn {}).state 2) := by
    intro jump earlier hs hj
    rcases List.suffix_cons_iff.1 hs with he | hs
    · obtain ⟨rfl, rfl⟩ := List.cons.inj he
      exact .inr ⟨_, List.mem_cons_self, ⟨.inl rfl, by decide⟩, rfl⟩
    · rcases List.suffix_cons_iff.1 hs with he | hs
      · obtain ⟨rfl, rfl⟩ := List.cons.inj he
        cases hj
      · exact absurd (List.eq_nil_of_suffix_nil hs) (List.cons_ne_nil _ _)
  have hs : (Machine.start callAndReturn {}).state.cpu.pc ∈ [(0 : Word)] := List.mem_singleton.2 rfl
  have hl : callAndReturn.words.size ≤ 3 := Nat.le_refl 3
  obtain ⟨hvisited, -, hhalt, -⟩ := walk_covers_run hl hs 2 hk
  exact ⟨hk, hvisited 2 (Nat.le_refl 2) rfl, hhalt .virtual rfl⟩

end MiniRisc
