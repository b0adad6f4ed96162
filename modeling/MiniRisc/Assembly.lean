import MiniRisc.Assembly.Encode
import MiniRisc.Assembly.Source
import MiniRisc.Instruction
import MiniRisc.Log

/-!
# Assembling

A source is placed, then every instruction is encoded where it stands, and the first error ends
the work. The words must hold a branch of an instruction to itself on equal zeros, which is how a
program ends. Words are written as one line of thirty-two binary digits each.
-/

namespace MiniRisc

/-- An instruction line with its word. -/
structure EncodedLine where
  /-- The line. -/
  source : PlacedLine
  /-- Its word and what the word loses. -/
  encoded : Encoded
deriving DecidableEq, Repr

/-- The words of a program and the labels of its source. -/
structure Assembly where
  /-- The words in the order of the instructions. -/
  words : List Word
  /-- The labels of the source. -/
  labels : LabelTable
deriving DecidableEq, Repr

/-- The work of the assembler on one source. -/
structure AssemblyRun where
  /-- The lines that were encoded before the work ended. -/
  lines : List EncodedLine := []
  /-- What it came to. -/
  outcome : Except AssemblyError Assembly

/-- A lost offset as a warning. -/
def OffsetLoss.logEntry (loss : OffsetLoss) : LogEntry where
  level := .warn
  message := s!"{loss.op.mnemonic} offset does not survive encoding; decodes to {loss.stored}"
  fields := [("addr", loss.address.decimal), ("offset", toString loss.wanted)]

/-- What is told about an encoded instruction. -/
def Encoded.logEntries (encoded : Encoded) : List LogEntry :=
  encoded.loss.toList.map OffsetLoss.logEntry

/-- What is told about an encoded line: its lost offset, then its word and tokens. -/
def EncodedLine.logEntries (line : EncodedLine) : List LogEntry :=
  line.encoded.logEntries ++
    [{ level := .debug
       message := line.encoded.word.binary ++ "  " ++ String.intercalate " " line.source.tokens
       fields := [("line", toString line.source.number),
         ("addr", line.source.address.decimal)] }]

/-- The lines that can be encoded before the first that cannot, and the error of that one. -/
def encodeLines (labels : LabelTable) :
    List PlacedLine → List EncodedLine × Option AssemblyError
  | [] => ([], none)
  | line :: rest =>
    match Site.encode ⟨line.address, labels⟩ line.tokens with
    | .error error => ([], some (.atLine line.number error))
    | .ok encoded =>
      let (lines, error) := encodeLines labels rest
      (⟨line, encoded⟩ :: lines, error)

namespace Assembly

/-- Assembles a source and keeps what was done on the way. -/
def run (source : String) : AssemblyRun :=
  match Placement.ofSource source with
  | .error error => { outcome := .error error }
  | .ok placement =>
    let (lines, error) := encodeLines placement.labels placement.lines
    let words := lines.map (·.encoded.word)
    match error with
    | some error => { lines, outcome := .error error }
    | none =>
      if words.contains Word.virtualHalt then
        { lines, outcome := .ok { words, labels := placement.labels } }
      else { lines, outcome := .error .noVirtualHalt }

/-- Assembles a source. -/
def ofSource (source : String) : Except AssemblyError Assembly := (run source).outcome

/-- The words as text, one line each, without an ending after the last. -/
def text (assembly : Assembly) : String :=
  String.intercalate "\n" (assembly.words.map Word.binary)

end Assembly

/-- What is told about the work on a source. -/
def AssemblyRun.logEntries (run : AssemblyRun) : List LogEntry :=
  run.lines.flatMap EncodedLine.logEntries

end MiniRisc
