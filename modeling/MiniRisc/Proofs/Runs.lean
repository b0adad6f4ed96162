import MiniRisc.Proofs.Steps

/-!
# Runs and their pasts

A run takes steps one after the other, also after a step that traps or halts. Its past is the list
of the instructions that it has retired, the latest first, each with what there was before and
after it. What holds at the start and is kept by every step holds after any number of steps.
-/

namespace MiniRisc

/-- An instruction that was retired. -/
structure Retirement (σ : Type) where
  /-- What there was before the step. -/
  before : σ
  /-- The instruction. -/
  instruction : Instruction
  /-- What there was after the step. -/
  after : σ

/-- A way to take one step. -/
abbrev Stepper (σ : Type) := σ → σ × Except Trap Step

namespace Stepper

variable {σ : Type} (stepper : Stepper σ) (start : σ)

/-- What there is after a number of steps. -/
def after : Nat → σ
  | 0 => start
  | count + 1 => (stepper (after count)).1

/-- The instructions retired in a number of steps, the latest first. -/
def past : Nat → List (Retirement σ)
  | 0 => []
  | count + 1 =>
    match stepper (stepper.after start count) with
    | (next, .ok (.retired instruction)) =>
      ⟨stepper.after start count, instruction, next⟩ :: past count
    | _ => past count

/-- The steps after the first are the steps of what the first leaves. -/
theorem after_succ (count : Nat) :
    stepper.after start (count + 1) = stepper.after (stepper start).1 count := by
  induction count with
  | zero => rfl
  | succ count ih => rw [after, ih, after]

/-- A step that retires an instruction adds it to the past. -/
theorem past_succ_of_retired {count : Nat} {next : σ} {instruction : Instruction}
    (h : stepper (stepper.after start count) = (next, .ok (.retired instruction))) :
    stepper.past start (count + 1) =
      ⟨stepper.after start count, instruction, next⟩ :: stepper.past start count := by
  simp only [past, h]

/-- A step that retires nothing adds nothing to the past. -/
theorem past_succ_of_not_retired {count : Nat}
    (h : ∀ instruction, (stepper (stepper.after start count)).2 ≠ .ok (.retired instruction)) :
    stepper.past start (count + 1) = stepper.past start count := by
  rw [past]
  split
  case h_1 next instruction hs => exact absurd (congrArg Prod.snd hs) (h instruction)
  case h_2 => rfl

/-- What holds of the past and the present at the start, and is kept by the steps that retire an
instruction and by those that do not, holds after any number of steps. -/
theorem run_induction {motive : List (Retirement σ) → σ → Prop} (hstart : motive [] start)
    (hretired : ∀ past state instruction next, motive past state →
      stepper state = (next, .ok (.retired instruction)) →
      motive (⟨state, instruction, next⟩ :: past) next)
    (hidle : ∀ past state outcome next, motive past state → stepper state = (next, outcome) →
      (∀ instruction, outcome ≠ .ok (.retired instruction)) → motive past next) (count : Nat) :
    motive (stepper.past start count) (stepper.after start count) := by
  induction count with
  | zero => exact hstart
  | succ count ih =>
    by_cases hr : ∃ instruction,
        (stepper (stepper.after start count)).2 = .ok (.retired instruction)
    · obtain ⟨instruction, hi⟩ := hr
      have hs : stepper (stepper.after start count) =
          (stepper.after start (count + 1), .ok (.retired instruction)) := Prod.ext rfl hi
      rw [past_succ_of_retired stepper start hs]
      exact hretired _ _ _ _ ih hs
    · have hn := not_exists.1 hr
      rw [past_succ_of_not_retired stepper start hn]
      exact hidle _ _ _ _ ih rfl hn

/-- The past of a run begins with the pasts that it had before. -/
theorem past_suffix {first count : Nat} (h : first ≤ count) :
    stepper.past start first <:+ stepper.past start count := by
  induction h with
  | refl => exact List.suffix_refl _
  | step _ ih =>
    refine ih.trans ?_
    rw [past]
    split
    case h_1 => exact List.suffix_cons _ _
    case h_2 => exact List.suffix_refl _

end Stepper

end MiniRisc
