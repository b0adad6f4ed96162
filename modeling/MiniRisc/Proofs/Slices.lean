import Mathlib.Tactic.IntervalCases
import MiniRisc.Layout

/-!
# The slices of an offset

The offsets of branches and jumps are kept as patterns with more places than a word has for them.
What a word gives back of such a pattern is a row of slices of the word with a zero behind it: the
places that were filled in from the sign, and those that stayed empty, add nothing to the number.
-/

namespace MiniRisc

namespace Format

/-- The sign of a branch offset is the highest bit of its word. -/
theorem taken_sign {word : Word} :
    (((((0 : Word).put 16 3 4 (word.extractLsb' 31 1)).put 16 5 11 (word.extractLsb' 25 6)).put
      16 11 15 (word.extractLsb' 8 4)).put 16 4 5 (word.extractLsb' 7 1)).taken 16 3 4 = 1 ↔
      word[31] = true := by
  have hone : ∀ bit : BitVec 1, bit = 1 ↔ bit.getLsbD 0 = true := by decide
  rw [hone]
  simp [Word.taken, Word.put]

/-- The offset of a branch is the number of four slices and a zero. -/
theorem immediate_B (word : Word) : B.immediate word =
    (word.extractLsb' 31 1 ++ word.extractLsb' 7 1 ++ word.extractLsb' 25 6 ++
      word.extractLsb' 8 4 ++ 0#1).toInt := by
  rw [← BitVec.toInt_signExtend_of_le (by decide : 13 ≤ 16)]
  simp only [immediate, taken_sign]
  refine congrArg BitVec.toInt (BitVec.eq_of_getLsbD_eq fun place hp => ?_)
  rw [BitVec.getLsbD_signExtend, BitVec.msb_eq_getLsbD_last]
  simp only [BitVec.getLsbD_append]
  cases hs : word[31]
  all_goals
    interval_cases place
    all_goals simp [Word.put, hs]

/-- The offset of a jump is the number of four slices and a zero. -/
theorem immediate_J (word : Word) : J.immediate word =
    (word.extractLsb' 31 1 ++ word.extractLsb' 12 8 ++ word.extractLsb' 20 1 ++
      word.extractLsb' 21 10 ++ 0#1).toInt := by
  refine congrArg BitVec.toInt (BitVec.eq_of_getLsbD_eq fun place hp => ?_)
  simp only [BitVec.getLsbD_append]
  interval_cases place
  all_goals simp [Word.put]

/-- The immediate that a word stores is the number of slices of the word side by side. -/
theorem immediate_eq_slices (format : Format) (word : Word) : format.immediate word =
    match format with
    | R => 0
    | I => (word.extractLsb' 20 12).toInt
    | S => (word.extractLsb' 25 7 ++ word.extractLsb' 7 5).toInt
    | B =>
      (word.extractLsb' 31 1 ++ word.extractLsb' 7 1 ++ word.extractLsb' 25 6 ++
        word.extractLsb' 8 4 ++ 0#1).toInt
    | U => (word.extractLsb' 12 20 ++ 0#12).toInt
    | J =>
      (word.extractLsb' 31 1 ++ word.extractLsb' 12 8 ++ word.extractLsb' 20 1 ++
        word.extractLsb' 21 10 ++ 0#1).toInt := by
  cases format
  case B => exact immediate_B word
  case J => exact immediate_J word
  all_goals rfl

end Format

end MiniRisc
