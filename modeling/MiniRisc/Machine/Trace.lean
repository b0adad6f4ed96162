import MiniRisc.Machine.State

/-!
# Traces

A trace has one line for every step, with the program counter and all registers after it, and one
line for every data word at the end. Every value has all its binary digits and every address all
its hexadecimal digits, so the lines of each kind have one length and the text is read back in one
way only.
-/

namespace MiniRisc

/-- A binary numeral with its mark. -/
def Word.markedBinary (word : Word) : String := "0b" ++ word.binary

/-- The program counter and the registers on one line. -/
def Cpu.traceLine (cpu : Cpu) : String :=
  String.intercalate " " ((cpu.pc :: cpu.registers.toList).map Word.markedBinary)

/-- A data word with its address, as a line with its ending. -/
def dataLine (entry : Word × Word) : String :=
  entry.1.hex ++ ":" ++ entry.2.markedBinary ++ "\n"

/-- All data words, one a line. -/
def DataMemory.traceText (memory : DataMemory) : String :=
  String.join (memory.placed.map dataLine)

/-- The text of a trace: the states in order, then the data. -/
def traceText (states : List Cpu) (memory : DataMemory) : String :=
  String.join (states.map fun cpu => cpu.traceLine ++ "\n") ++ memory.traceText

end MiniRisc
