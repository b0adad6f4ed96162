import MiniRisc.Json.Record
import MiniRisc.Machine.Step

/-!
# JSON forms of machine data

Every kind of data that leaves or enters a machine has one JSON form. All fields of a record are
required, except those of a set-up, each of which has a default.
-/

namespace MiniRisc

open Json (int text list object record? ofWord ofByte ofWords)

/-- The JSON form of a set-up. -/
def Config.toJson (config : Config) : Json :=
  object [("stack_top", ofWord config.stackTop), ("data_base", ofWord config.dataBase),
    ("data_words", int config.dataWords)]

/-- The value of a field, or its default where the field is missing. -/
def Json.fieldOr (default : α) (read : Json → Option α) : Option Json → Option α
  | none => some default
  | some json => read json

/-- The set-up that a JSON value describes. -/
def Config.ofJson? (json : Json) : Option Config := do
  match ← record? ["stack_top", "data_base", "data_words"] json with
  | [stackTop, dataBase, dataWords] =>
    let standard : Config := {}
    return {
      stackTop := ← Json.fieldOr standard.stackTop Json.word? stackTop
      dataBase := ← Json.fieldOr standard.dataBase Json.word? dataBase
      dataWords := ← Json.fieldOr standard.dataWords (Json.natural? 64) dataWords }
  | _ => none

/-- The JSON form of the processor. -/
def Cpu.toJson (cpu : Cpu) : Json :=
  object [("pc", ofWord cpu.pc), ("gpr", ofWords cpu.registers.toList),
    ("cfg", cpu.config.toJson)]

/-- The thirty-two registers that a JSON value lists. -/
def registersOfJson? (json : Json) : Option (Vector Word 32) := do
  let words ← json.words?
  if h : words.length = 32 then some ⟨words.toArray, h⟩ else none

/-- The processor that a JSON value describes. -/
def Cpu.ofJson? (json : Json) : Option Cpu := do
  match ← record? ["pc", "gpr", "cfg"] json with
  | [some pc, some registers, some config] =>
    return { pc := ← pc.word?, registers := ← registersOfJson? registers,
             config := ← Config.ofJson? config }
  | _ => none

/-- The JSON form of data memory. -/
def DataMemory.toJson (memory : DataMemory) : Json :=
  object [("words", ofWords memory.words.toList), ("base", ofWord memory.base)]

/-- The data memory that a JSON value describes. -/
def DataMemory.ofJson? (json : Json) : Option DataMemory := do
  match ← record? ["words", "base"] json with
  | [some words, some base] => return ⟨(← words.words?).toArray, ← base.word?⟩
  | _ => none

/-- The JSON form of a program. -/
def Program.toJson (program : Program) : Json :=
  object [("words", ofWords program.words.toList)]

/-- The program that a JSON value describes. -/
def Program.ofJson? (json : Json) : Option Program := do
  match ← record? ["words"] json with
  | [some words] => return ⟨(← words.words?).toArray⟩
  | _ => none

/-- The JSON form of a format. -/
def Format.toJson (format : Format) : Json := text format.letter

/-- The format that a JSON value names. -/
def Format.ofJson? : Json → Option Format := Json.choice? Format.all Format.letter

/-- The JSON form of an operation. -/
def Op.toJson (op : Op) : Json := text op.title

/-- The operation that a JSON value names. -/
def Op.ofJson? : Json → Option Op := Json.choice? Op.all Op.title

/-- The JSON form of the way a program stopped. -/
def Halt.toJson (kind : Halt) : Json := text kind.title

/-- The way a program stopped that a JSON value names. -/
def Halt.ofJson? : Json → Option Halt := Json.choice? Halt.all Halt.title

/-- The JSON form of an instruction. -/
def Instruction.toJson (instruction : Instruction) : Json :=
  object [("op", instruction.op.toJson), ("format", instruction.format.toJson),
    ("raw", ofWord instruction.raw), ("rd", ofByte instruction.rd),
    ("rs1", ofByte instruction.rs1), ("rs2", ofByte instruction.rs2),
    ("imm", int instruction.imm.toInt)]

/-- The instruction that a JSON value describes. -/
def Instruction.ofJson? (json : Json) : Option Instruction := do
  match ← record? ["op", "format", "raw", "rd", "rs1", "rs2", "imm"] json with
  | [some op, some format, some raw, some rd, some rs1, some rs2, some imm] =>
    return { op := ← Op.ofJson? op, format := ← Format.ofJson? format, raw := ← raw.word?,
             rd := ← rd.byte?, rs1 := ← rs1.byte?, rs2 := ← rs2.byte?,
             imm := ← imm.signedWord? }
  | _ => none

end MiniRisc
