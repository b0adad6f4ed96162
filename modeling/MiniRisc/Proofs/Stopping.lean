import MiniRisc.Proofs.Steps

/-!
# Steps that retire nothing

A trap leaves the whole machine as it was, so the same step traps again for the same reason. A
halt changes the count of steps and nothing else, so the machine halts again until its limit is
reached.
-/

namespace MiniRisc.Machine

/-- The step after a trap is the same step, and traps again. -/
theorem step_of_trapped {machine after : Machine} {trap : Trap}
    (h : machine.step = (after, .error trap)) :
    after = machine ∧ after.step = (machine, .error trap) := by
  cases does_of_step h with
  | refused | trapped => exact ⟨rfl, h⟩

/-- The machine that has reached its limit stays as it is. -/
theorem step_of_limit {machine : Machine} {limit : Nat}
    (hl : machine.limitReached? = some limit) :
    machine.step = (machine, .error (.stepLimit limit)) := by
  simp only [step, hl]

/-- A step that traps leaves the machine as it was and traps again. A step that halts counts
itself, changes nothing else, and halts again in the same way, unless the limit is now reached:
then the next step is refused and changes nothing. -/
theorem step_again (machine : Machine) :
    (∀ after trap, machine.step = (after, .error trap) →
      after = machine ∧ after.step = (machine, .error trap)) ∧
    (∀ after kind, machine.step = (after, .ok (.halted kind)) →
      after = { machine with steps := machine.steps + 1 } ∧
      ((∀ limit, machine.limit = some limit → machine.steps + 1 < limit) →
        after.step = ({ machine with steps := machine.steps + 2 }, .ok (.halted kind))) ∧
      ∀ limit, machine.limit = some limit → limit ≤ machine.steps + 1 →
        after.step = (after, .error (.stepLimit limit))) := by
  refine ⟨fun after trap h => step_of_trapped h, fun after kind h => ?_⟩
  cases does_of_step h with
  | halted _ hs =>
    refine ⟨rfl, fun hl => ?_, fun limit hl hn => ?_⟩
    · exact step_of_ok (limitReached?_eq_none_iff.2 hl) hs
    · exact step_of_limit (limitReached?_eq_some_iff.2 ⟨hl, hn⟩)

/-- A load below the data window traps again, and a halt in the last step that a limit allows is
refused afterwards. -/
theorem step_again_load_halt :
    (∃ trap, let machine := start ⟨#[0x00002003]⟩ {}
      machine.step = (machine, .error trap) ∧ machine.step.1.step = (machine, .error trap)) ∧
    let machine := (start ⟨#[Word.virtualHalt]⟩ {}).withLimit 1
    machine.step.2 = .ok (.halted .virtual) ∧
      machine.step.1.step = (machine.step.1, .error (.stepLimit 1)) := by
  refine ⟨⟨.memory 0 (.unmapped 0 0x10000 0x10080), ?_⟩, ?_⟩
  · have h : (start ⟨#[0x00002003]⟩ {}).step =
        (start ⟨#[0x00002003]⟩ {}, .error (.memory 0 (.unmapped 0 0x10000 0x10080))) := by
      rfl
    obtain ⟨-, hagain⟩ := (step_again (start ⟨#[0x00002003]⟩ {})).1 _ _ h
    dsimp only
    rw [h]
    exact ⟨rfl, hagain⟩
  · have h : ((start ⟨#[Word.virtualHalt]⟩ {}).withLimit 1).step =
        ({ (start ⟨#[Word.virtualHalt]⟩ {}).withLimit 1 with steps := 1 },
          .ok (.halted .virtual)) := by
      rfl
    obtain ⟨-, -, hlimit⟩ := (step_again ((start ⟨#[Word.virtualHalt]⟩ {}).withLimit 1)).2 _ _ h
    dsimp only
    rw [h]
    exact ⟨rfl, hlimit 1 rfl (by decide)⟩

end MiniRisc.Machine
