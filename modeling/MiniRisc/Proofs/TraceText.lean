import Mathlib.Data.List.Forall2
import MiniRisc.Proofs.DumpedMemory

/-!
# What the text of a trace tells

The text of a trace has a line for every state and one for every data word. A state is told by
numerals with spaces between them, a data word by two numerals of fixed length, and the second
character of a line tells the two kinds apart. So the text determines how many states there were,
the program counter and the registers of each, and the words of the data with their addresses.
-/

namespace MiniRisc

namespace Word

/-- A marked binary numeral determines the word. -/
theorem toList_markedBinary_inj {first second : Word} :
    first.markedBinary.toList = second.markedBinary.toList ↔ first = second := by
  constructor
  · intro h
    rw [toList_markedBinary, toList_markedBinary] at h
    have hdigits : first.binaryDigits = second.binaryDigits := by simpa using h
    apply BitVec.eq_of_toNat_eq
    rw [← binaryValue_binaryDigits, ← binaryValue_binaryDigits, hdigits]
  · rintro rfl
    rfl

end Word

/-! ### Lines of states and lines of words -/

/-- A line of a state has the mark of a binary numeral at its beginning. -/
def isStateLine : List Char → Bool
  | _ :: mark :: _ => mark == 'b'
  | _ => false

namespace Cpu

/-- The line of a state is cut at its spaces into the numerals of the program counter and of the
registers. -/
theorem splitOn_traceLine (cpu : Cpu) :
    cpu.traceLine.toList.splitOn ' ' =
      (cpu.pc :: cpu.registers.toList).map fun word => word.markedBinary.toList := by
  have hspace : " ".toList = [' '] := rfl
  rw [traceLine, String.toList_intercalate, hspace, List.map_map]
  apply List.splitOn_intercalate
  · intro numeral hm hs
    obtain ⟨word, -, rfl⟩ := List.mem_map.1 hm
    exact Text.ne_of_isSolid (word.solid_markedBinary.2 ' ' hs) rfl rfl
  · exact List.cons_ne_nil _ _

/-- The line of a state determines its program counter and its registers. -/
theorem toList_traceLine_eq_iff {cpu other : Cpu} :
    cpu.traceLine.toList = other.traceLine.toList ↔
      cpu.pc = other.pc ∧ cpu.registers = other.registers := by
  constructor
  · intro h
    have hnumerals := congrArg (List.splitOn ' ') h
    rw [splitOn_traceLine, splitOn_traceLine] at hnumerals
    have hinjective : Function.Injective fun word : Word => word.markedBinary.toList :=
      fun _ _ he => Word.toList_markedBinary_inj.1 he
    obtain ⟨hpc, hregisters⟩ := List.cons.inj (List.map_injective_iff.2 hinjective hnumerals)
    exact ⟨hpc, Vector.toList_inj.1 hregisters⟩
  · rintro ⟨hpc, hregisters⟩
    rw [traceLine, traceLine, hpc, hregisters]

/-- A line of a state is marked as one. -/
theorem isStateLine_traceLine (cpu : Cpu) : isStateLine cpu.traceLine.toList = true := by
  have hfirst : ∃ rest, cpu.traceLine = cpu.pc.markedBinary ++ rest := by
    rw [traceLine, List.map_cons]
    cases cpu.registers.toList.map Word.markedBinary with
    | nil => exact ⟨"", by rw [String.intercalate_singleton, String.append_empty]⟩
    | cons second more => exact ⟨_, by rw [String.intercalate_cons_cons, String.append_assoc]⟩
  obtain ⟨rest, hrest⟩ := hfirst
  rw [hrest, String.toList_append, Word.toList_markedBinary]
  rfl

/-- A line of a state is neat. -/
theorem neat_traceLine (cpu : Cpu) : Text.Neat cpu.traceLine.toList := by
  refine Text.neat_intercalate rfl (List.cons_ne_nil _ _) fun numeral hm => ?_
  obtain ⟨word, -, rfl⟩ := List.mem_map.1 hm
  exact .of_solid word.solid_markedBinary

end Cpu

namespace DataMemory

/-- A line of a word is not marked as one of a state. -/
theorem isStateLine_entryLine (entry : Word × Word) : isStateLine (entryLine entry) = false := by
  rw [entryLine, Word.toList_hex]
  rfl

/-- The line of a word determines its address and the word. -/
theorem entryLine_injective : Function.Injective entryLine := by
  intro first second h
  have hlength : ∀ word : Word, word.hex.toList.length = 10 := by
    intro word
    rw [Word.toList_hex, List.length_cons, List.length_cons, Word.length_hexDigits]
  obtain ⟨haddress, hrest⟩ :=
    List.append_inj h ((hlength first.1).trans (hlength second.1).symm)
  have hvalue := Word.toList_markedBinary_inj.1 (List.cons.inj hrest).2
  rw [Word.toList_hex, Word.toList_hex] at haddress
  have hdigits : first.1.hexDigits = second.1.hexDigits := by simpa using haddress
  exact Prod.ext (Word.hexDigits_injective hdigits) hvalue

end DataMemory

/-! ### The whole text -/

/-- The lines of a trace without their endings. -/
def traceLines (states : List Cpu) (memory : DataMemory) : List (List Char) :=
  states.map (fun cpu => cpu.traceLine.toList) ++ memory.placed.map DataMemory.entryLine

section

variable {states others : List Cpu} {memory other : DataMemory}

/-- No line of a trace has a line ending. -/
theorem not_mem_traceLines {line : List Char} (h : line ∈ traceLines states memory) :
    '\n' ∉ line ∧ '\r' ∉ line := by
  rcases List.mem_append.1 h with h | h
  · obtain ⟨cpu, -, rfl⟩ := List.mem_map.1 h
    exact cpu.neat_traceLine.not_mem_breaks
  · obtain ⟨entry, -, rfl⟩ := List.mem_map.1 h
    exact ⟨DataMemory.not_mem_entryLine entry rfl (by decide),
      DataMemory.not_mem_entryLine entry rfl (by decide)⟩

/-- The text of a trace is its lines, each with its ending. -/
theorem toList_traceText (states : List Cpu) (memory : DataMemory) :
    (traceText states memory).toList = (traceLines states memory).flatMap (· ++ ['\n']) := by
  have hn : "\n".toList = ['\n'] := rfl
  rw [traceText, String.toList_append, DataMemory.toList_traceText, traceLines, List.flatMap_append,
    String.toList_join]
  simp only [List.flatMap_map, String.toList_append, hn]

/-- The text of a trace determines its lines. -/
theorem traceText_eq_iff_lines :
    traceText states memory = traceText others other ↔
      traceLines states memory = traceLines others other := by
  constructor
  · intro h
    have hlines := congrArg (fun text => Text.lines text.toList) h
    simp only [toList_traceText] at hlines
    rwa [Text.lines_flatMap fun _ => not_mem_traceLines,
      Text.lines_flatMap fun _ => not_mem_traceLines] at hlines
  · intro h
    apply String.toList_inj.1
    rw [toList_traceText, toList_traceText, h]

/-- The lines of states are those that are marked. -/
theorem filter_traceLines (states : List Cpu) (memory : DataMemory) :
    (traceLines states memory).filter isStateLine =
      states.map fun cpu => cpu.traceLine.toList := by
  have hstates : ∀ line ∈ states.map (fun cpu => cpu.traceLine.toList), isStateLine line = true :=
    List.forall_mem_map.2 fun cpu _ => cpu.isStateLine_traceLine
  have hwords : ∀ line ∈ memory.placed.map DataMemory.entryLine, ¬isStateLine line = true := by
    intro line hl
    obtain ⟨entry, -, rfl⟩ := List.mem_map.1 hl
    rw [DataMemory.isStateLine_entryLine]
    exact Bool.false_ne_true
  rw [traceLines, List.filter_append, List.filter_eq_self.2 hstates,
    List.filter_eq_nil_iff.2 hwords, List.append_nil]

/-- The lines of a trace determine the lines of its states and those of its words. -/
theorem traceLines_eq_iff :
    traceLines states memory = traceLines others other ↔
      states.map (fun cpu => cpu.traceLine.toList) = others.map (fun cpu => cpu.traceLine.toList) ∧
        memory.placed.map DataMemory.entryLine = other.placed.map DataMemory.entryLine := by
  constructor
  · intro h
    have hstates := congrArg (List.filter isStateLine) h
    rw [filter_traceLines, filter_traceLines] at hstates
    rw [traceLines, traceLines, hstates] at h
    exact ⟨hstates, List.append_cancel_left h⟩
  · rintro ⟨hstates, hwords⟩
    rw [traceLines, traceLines, hstates, hwords]

/-- The lines of states determine how many there are and what each shows. -/
theorem map_traceLine_eq_iff :
    states.map (fun cpu => cpu.traceLine.toList) = others.map (fun cpu => cpu.traceLine.toList) ↔
      List.Forall₂ (fun cpu other => cpu.pc = other.pc ∧ cpu.registers = other.registers)
        states others := by
  rw [← List.forall₂_eq_eq_eq, List.forall₂_map_left_iff, List.forall₂_map_right_iff]
  simp only [Cpu.toList_traceLine_eq_iff]

end

/-- Two traces have one text exactly if they have as many states, each with the program counter and
the registers of the other in its place, and the same data words at the same addresses in the same
order. The text has a line with its ending for every state and every data word, and nothing else. -/
theorem traceText_eq_iff (states others : List Cpu) (memory other : DataMemory) :
    (traceText states memory = traceText others other ↔
      List.Forall₂ (fun cpu other => cpu.pc = other.pc ∧ cpu.registers = other.registers)
        states others ∧ memory.placed = other.placed) ∧
    ∃ lines : List (List Char), (traceText states memory).toList = lines.flatMap (· ++ ['\n']) ∧
      (∀ line ∈ lines, '\n' ∉ line) ∧ lines.length = states.length + memory.words.size := by
  constructor
  · rw [traceText_eq_iff_lines, traceLines_eq_iff, map_traceLine_eq_iff,
      (List.map_injective_iff.2 DataMemory.entryLine_injective).eq_iff]
  · refine ⟨traceLines states memory, toList_traceText states memory,
      fun line hl => (not_mem_traceLines hl).1, ?_⟩
    simp [traceLines, DataMemory.placed]

end MiniRisc
