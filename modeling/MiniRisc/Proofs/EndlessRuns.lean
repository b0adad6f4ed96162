import Mathlib.Data.Fintype.BigOperators
import Mathlib.Data.Fintype.Pigeonhole
import MiniRisc.Proofs.Budget
import MiniRisc.Proofs.Touched

/-!
# Runs without an end

A machine goes on forever if every one of its steps retires an instruction. The states of one
machine differ only in the words of the program counter, the registers and the data, so there are no
more of them than rows of so many words. A machine without a limit that retires as many instructions
has been in one state twice, and what it did in between it does forever. So the loop that runs a
machine uses up its fuel exactly if the machine goes on forever, and otherwise finds the end.
-/

namespace MiniRisc

/-- The words in which the states of one machine differ. -/
def State.cells (state : State) : List Word :=
  state.cpu.pc :: (state.cpu.registers.toList ++ state.data.words.toList)

/-- There are thirty-three words and the data. -/
theorem State.length_cells (state : State) :
    state.cells.length = 33 + state.data.words.size := by
  rw [cells, List.length_cons, List.length_append, Vector.length_toList, Array.length_toList]
  omega

namespace Machine

/-- Every step of a machine retires an instruction. -/
def GoesOn (machine : Machine) : Prop :=
  ∀ count, ∃ instruction, (Stepper.after step machine count).step.2 = .ok (.retired instruction)

/-- Two machines that differ in no more than the words of their states and the steps that they have
taken. -/
structure Alike (first second : Machine) : Prop where
  /-- They run one program. -/
  program : first.program = second.program
  /-- They have one limit. -/
  limit : first.limit = second.limit
  /-- They have one set-up. -/
  config : first.state.cpu.config = second.state.cpu.config
  /-- Their data start at one address. -/
  base : first.state.data.base = second.state.data.base
  /-- They have equally many data words. -/
  size : first.state.data.words.size = second.state.data.words.size

variable {machine first second third after last : Machine} {visits : List Visit} {ending : Ending}

/-- What is like a machine that is like another is like that. -/
theorem Alike.trans (h : first.Alike second) (h' : second.Alike third) : first.Alike third :=
  ⟨h.program.trans h'.program, h.limit.trans h'.limit, h.config.trans h'.config,
    h.base.trans h'.base, h.size.trans h'.size⟩

/-- A machine is like what is like it. -/
theorem Alike.symm (h : first.Alike second) : second.Alike first :=
  ⟨h.program.symm, h.limit.symm, h.config.symm, h.base.symm, h.size.symm⟩

/-- Machines that are alike and agree in the words of their states have one state. -/
theorem Alike.state_eq (h : first.Alike second) (hc : first.state.cells = second.state.cells) :
    first.state = second.state := by
  obtain ⟨hpc, hrest⟩ := List.cons.inj hc
  have hlength : first.state.cpu.registers.toList.length =
      second.state.cpu.registers.toList.length := by
    rw [Vector.length_toList, Vector.length_toList]
  obtain ⟨hregisters, hwords⟩ := List.append_inj hrest hlength
  have hconfig := h.config
  have hbase := h.base
  obtain ⟨⟨⟨pc, registers, config⟩, ⟨words, base⟩⟩⟩ := first
  obtain ⟨⟨⟨pc', registers', config'⟩, ⟨words', base'⟩⟩⟩ := second
  obtain rfl : registers = registers' := Vector.toList_inj.1 hregisters
  obtain rfl : words = words' := Array.toList_inj.1 hwords
  obtain rfl : pc = pc' := hpc
  obtain rfl : config = config' := hconfig
  obtain rfl : base = base' := hbase
  rfl

/-- A step leaves a machine that is alike. -/
theorem alike_of_step {outcome : Except Trap Step} (h : machine.step = (after, outcome)) :
    after.Alike machine := by
  cases does_of_step h with
  | refused | trapped | halted => exact ⟨rfl, rfl, rfl, rfl, rfl⟩
  | retired =>
    have ht := touches_of_retired h
    exact ⟨ht.program, rfl, ht.config, ht.base, ht.size⟩

/-- All steps leave machines that are alike. -/
theorem alike_after (machine : Machine) (count : Nat) :
    (Stepper.after step machine count).Alike machine := by
  induction count with
  | zero => exact ⟨rfl, rfl, rfl, rfl, rfl⟩
  | succ count ih =>
    have hs : (Stepper.after step machine count).step =
        (Stepper.after step machine (count + 1), _) := rfl
    exact (alike_of_step hs).trans ih

/-- A run leaves a machine that is alike. -/
theorem Runs.alike (h : machine.Runs visits last ending) : last.Alike machine := by
  induction h with
  | trapped hs | halted hs => exact alike_of_step hs
  | retired hs _ ih => exact ih.trans (alike_of_step hs)

/-- What a machine without a limit does depends on its program and its state only. -/
theorem step_congr (hl : first.limit = none) (h : first.Alike second)
    (hs : first.state = second.state) :
    first.step.2 = second.step.2 ∧ first.step.1.state = second.step.1.state := by
  have hfirst : first.limitReached? = none := by rw [limitReached?, hl, Option.filter_none]
  have hsecond : second.limitReached? = none := by
    rw [limitReached?, ← h.limit, hl, Option.filter_none]
  unfold step
  rw [hfirst, hsecond, hs, h.program]
  dsimp only
  split <;> exact ⟨rfl, rfl⟩

/-- After a state came back everything else comes back too. -/
theorem state_after_add (hl : machine.limit = none) {early late : Nat}
    (h : (Stepper.after step machine early).state = (Stepper.after step machine late).state)
    (more : Nat) :
    (Stepper.after step machine (early + more)).state =
      (Stepper.after step machine (late + more)).state := by
  induction more with
  | zero => exact h
  | succ more ih =>
    have hearly := alike_after machine (early + more)
    have halike := hearly.trans (alike_after machine (late + more)).symm
    exact (step_congr (hearly.limit.trans hl) halike ih).2

/-- Within as many steps as there are states, a state comes back. -/
theorem exists_state_after_eq (machine : Machine) :
    ∃ early late, early < late ∧ late ≤ machine.stateCount ∧
      (Stepper.after step machine early).state = (Stepper.after step machine late).state := by
  let width := 33 + machine.state.data.words.size
  have hlength : ∀ count, (Stepper.after step machine count).state.cells.length = width := by
    intro count
    rw [State.length_cells, (alike_after machine count).size]
  let row (count : Fin (machine.stateCount + 1)) (place : Fin width) : Fin (2 ^ 32) :=
    ((Stepper.after step machine count).state.cells.get (place.cast (hlength count).symm)).toFin
  have hcard : Fintype.card (Fin width → Fin (2 ^ 32)) <
      Fintype.card (Fin (machine.stateCount + 1)) := by
    rw [Fintype.card_fun, Fintype.card_fin, Fintype.card_fin, Fintype.card_fin, ← Nat.pow_mul]
    exact Nat.lt_succ_self _
  obtain ⟨first, second, hne, hrow⟩ := Fintype.exists_ne_map_eq_of_card_lt row hcard
  have hcells : (Stepper.after step machine first).state.cells =
      (Stepper.after step machine second).state.cells := by
    refine List.ext_get ((hlength _).trans (hlength _).symm) fun place hf hs => ?_
    have hplace := congrFun hrow ⟨place, (hlength first) ▸ hf⟩
    exact BitVec.toFin_inj.1 hplace
  have halike := (alike_after machine first).trans (alike_after machine second).symm
  have hstate := halike.state_eq hcells
  rcases Nat.lt_or_gt_of_ne (Fin.val_ne_of_ne hne) with hlt | hgt
  · exact ⟨first, second, hlt, Nat.le_of_lt_succ second.isLt, hstate⟩
  · exact ⟨second, first, hgt, Nat.le_of_lt_succ first.isLt, hstate.symm⟩

/-- A machine without a limit that retires as many instructions as it has states goes on forever. -/
theorem goesOn_of_stateCount (hl : machine.limit = none)
    (h : ∀ count < machine.stateCount, ∃ instruction,
      (Stepper.after step machine count).step.2 = .ok (.retired instruction)) :
    machine.GoesOn := by
  obtain ⟨early, late, hlt, hle, hstate⟩ := exists_state_after_eq machine
  intro count
  induction count using Nat.strongRecOn with
  | ind count ih =>
    rcases Nat.lt_or_ge count late with hc | hc
    · exact h count (Nat.lt_of_lt_of_le hc hle)
    · -- what is done here was done before, as much earlier as the state needed to come back
      have hsplit : late + (count - late) = count := Nat.add_sub_cancel' hc
      obtain ⟨instruction, hi⟩ := ih (early + (count - late)) (by omega)
      have halike := (alike_after machine (early + (count - late))).trans
        (alike_after machine (late + (count - late))).symm
      have hlimit := (alike_after machine (early + (count - late))).limit.trans hl
      have hsame := (step_congr hlimit halike (state_after_add hl hstate _)).1
      rw [← hsplit]
      exact ⟨instruction, hsame.symm.trans hi⟩

/-! ### What the loop finds -/

/-- The steps of a path retire instructions. -/
theorem Path.retires (h : machine.Path visits last) :
    ∀ count < visits.length, ∃ instruction,
      (Stepper.after step machine count).step.2 = .ok (.retired instruction) := by
  induction h with
  | here => exact fun _ hc => absurd hc (Nat.not_lt_zero _)
  | retired hs _ ih =>
    intro count hc
    cases count with
    | zero => exact ⟨_, congrArg Prod.snd hs⟩
    | succ count =>
      rw [Stepper.after_succ, hs]
      exact ih count (Nat.lt_of_succ_lt_succ hc)

/-- What goes on forever does so after a step. -/
theorem GoesOn.tail (h : machine.GoesOn) {outcome : Except Trap Step}
    (hs : machine.step = (after, outcome)) : after.GoesOn := by
  intro count
  have hn := h (count + 1)
  rwa [Stepper.after_succ, hs] at hn

/-- A machine that runs to an end does not go on forever. -/
theorem Runs.not_goesOn (h : machine.Runs visits last ending) : ¬ machine.GoesOn := by
  induction h with
  | trapped hs | halted hs =>
    intro hg
    obtain ⟨instruction, hi⟩ := hg 0
    cases (congrArg Prod.snd hs).symm.trans hi
  | retired hs _ ih => exact fun hg => ih (hg.tail hs)

/-- The loop uses up its fuel on a path, or finds the end. -/
theorem path_or_runs_runFor (fuel : Nat) (machine : Machine) (kept : Array Visit) :
    (∃ visits last, machine.Path visits last ∧ visits.length = fuel ∧
      runFor fuel machine kept = ⟨kept ++ visits, last, .endless⟩) ∨
    ∃ visits last ending, machine.Runs visits last ending ∧
      runFor fuel machine kept = ⟨kept ++ visits, last, ending⟩ := by
  induction fuel generalizing machine kept with
  | zero => exact .inl ⟨[], machine, .here machine, rfl, by simp [runFor]⟩
  | succ fuel ih =>
    rw [runFor]
    split
    case h_1 after trap hs => exact .inr ⟨_, _, _, .trapped hs, by simp⟩
    case h_2 after outcome hs =>
      cases outcome with
      | halted kind => exact .inr ⟨_, _, _, .halted hs, by simp [visit]⟩
      | retired instruction =>
        rcases ih after (kept.push (machine.visit (.retired instruction) after)) with
          ⟨visits, last, hp, hn, he⟩ | ⟨visits, last, ending, hr, he⟩
        · exact .inl ⟨_, _, .retired hs hp, congrArg Nat.succ hn, he.trans (by simp)⟩
        · exact .inr ⟨_, _, _, .retired hs hr, he.trans (by simp)⟩

/-- A machine goes on forever, and the loop says so, or it runs to the end that the loop gives. -/
theorem goesOn_or_runs_run (machine : Machine) :
    (machine.GoesOn ∧ machine.run.ending = .endless) ∨
      machine.Runs machine.run.visits.toList machine.run.machine machine.run.ending := by
  cases hl : machine.limit with
  | some limit => exact .inr (runs_run hl)
  | none =>
    have hbound : machine.runBound = machine.stateCount := by rw [runBound, hl]
    rw [run, hbound]
    rcases path_or_runs_runFor machine.stateCount machine #[] with
      ⟨visits, last, hp, hn, he⟩ | ⟨visits, last, ending, hr, he⟩
    · rw [he]
      exact .inl ⟨goesOn_of_stateCount hl (hn ▸ hp.retires), rfl⟩
    · rw [he]
      exact .inr (by simpa using hr)

/-- The run of a machine is endless exactly if every step retires an instruction. -/
theorem ending_eq_endless_iff (machine : Machine) :
    machine.run.ending = .endless ↔ machine.GoesOn := by
  rcases goesOn_or_runs_run machine with ⟨hg, he⟩ | hr
  · exact ⟨fun _ => hg, fun _ => he⟩
  · exact ⟨fun he => absurd he hr.ne_endless, fun hg => absurd hg hr.not_goesOn⟩

end Machine

end MiniRisc
