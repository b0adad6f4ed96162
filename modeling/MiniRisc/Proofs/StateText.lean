import MiniRisc.Proofs.JsonText
import MiniRisc.Tool.Platform

/-!
# The text of a state

The final state of the processor is told as JSON, with every value on a line of its own. The text is
given here as a whole, and it is read back as the processor that it was written for. A platform that
shows states so can take the place of that of this library.
-/

namespace MiniRisc

/-- The processor as JSON with every value on a line of its own. -/
def Cpu.laidOut (cpu : Cpu) : String :=
  "\x7b\n  \"pc\": " ++ cpu.pc.decimal ++
  ",\n  \"gpr\": [\n    " ++
  String.intercalate ",\n    " (cpu.registers.toList.map Word.decimal) ++
  "\n  ],\n  \"cfg\": \x7b\n    \"stack_top\": " ++ cpu.config.stackTop.decimal ++
  ",\n    \"data_base\": " ++ cpu.config.dataBase.decimal ++
  ",\n    \"data_words\": " ++ toString cpu.config.dataWords ++
  "\n  \x7d\n\x7d"

/-- A text shows a processor: it is its JSON, and it is read back as the processor. -/
structure Cpu.ShownBy (cpu : Cpu) (text : String) : Prop where
  /-- The values stand on lines of their own. -/
  eq_laidOut : text = cpu.laidOut
  /-- The text is JSON for the processor. -/
  reads : (Json.parse? text).bind Cpu.ofJson? = some cpu

/-- A platform shows the processors that there are: the number of their data words has 64 bits. -/
def Platform.ShowsStates (platform : Platform) : Prop :=
  ∀ cpu : Cpu, cpu.config.dataWords < Nat.pow 2 64 → cpu.ShownBy (platform.stateText cpu)

namespace Json

/-- An object with three members. -/
theorem prettyAt_object_three (level : Nat) (first second third : String) (a b c : Json) :
    prettyAt level (object [(first, a), (second, b), (third, c)]) =
      "\x7b" ++ lineBreak (level + 1) ++ quote first ++ ": " ++ prettyAt (level + 1) a ++
        "," ++ lineBreak (level + 1) ++ quote second ++ ": " ++ prettyAt (level + 1) b ++
        "," ++ lineBreak (level + 1) ++ quote third ++ ": " ++ prettyAt (level + 1) c ++
        lineBreak level ++ "\x7d" := by
  rw [prettyAt, bracketed_of_ne_nil (by simp [prettyMembers])]
  simp only [prettyMembers, String.intercalate_cons_cons, String.intercalate_singleton,
    String.append_assoc]

/-- Words are written as numbers. -/
theorem prettyItems_ofWord (level : Nat) (words : List Word) :
    prettyItems level (words.map ofWord) = words.map Word.decimal := by
  induction words with
  | nil => rfl
  | cons word words ih =>
    rw [List.map_cons, prettyItems, ih]
    rfl

end Json

open Json in
/-- The JSON of a processor is laid out. -/
theorem Cpu.pretty_toJson (cpu : Cpu) : cpu.toJson.pretty = cpu.laidOut := by
  have hregisters : cpu.registers.toList.map Word.decimal ≠ [] := by
    rw [Ne, List.map_eq_nil_iff, ← List.length_eq_zero_iff, Vector.length_toList]
    decide
  have hword (level : Nat) (word : Word) : prettyAt level (ofWord word) = word.decimal := by
    rw [ofWord, prettyAt]
    rfl
  have hcount : prettyAt 2 (int cpu.config.dataWords) = toString cpu.config.dataWords := by
    rw [prettyAt]
    rfl
  rw [pretty, toJson, prettyAt_object_three, Config.toJson, prettyAt_object_three, ofWords,
    prettyAt, prettyItems_ofWord, bracketed_of_ne_nil hregisters, hword, hword, hword, hcount]
  unfold laidOut
  -- the texts between the values are the same on both sides, cut at other places
  generalize cpu.pc.decimal = pc, cpu.config.stackTop.decimal = stackTop,
    cpu.config.dataBase.decimal = dataBase, toString cpu.config.dataWords = dataWords
  apply String.toList_inj.1
  simp [lineBreak, quote, escapeChar, List.replicate_succ]

/-- A number of so many bits is read back. -/
theorem Json.natural?_int {width n : Nat} (h : n < Nat.pow 2 width) :
    Json.natural? width (int n) = some n := by
  have hrange : (0 : Int) ≤ n ∧ (n : Int) ≤ Int.ofNat (Nat.pow 2 width) - 1 := by
    rw [Int.ofNat_eq_natCast]
    omega
  rw [natural?, intBetween?, if_pos hrange]
  rfl

/-- A word is read back. -/
theorem Json.word?_ofWord (word : Word) : (ofWord word).word? = some word := by
  rw [word?, ofWord, natural?_int word.isLt, Option.map_some, BitVec.ofNat_toNat,
    BitVec.setWidth_eq]

/-- A list of words is read back. -/
theorem Json.words?_ofWords (words : List Word) : (ofWords words).words? = some words := by
  rw [ofWords, words?]
  induction words with
  | nil => rfl
  | cons word words ih =>
    rw [List.map_cons, List.mapM_cons, word?_ofWord, ih]
    rfl

/-- A set-up is read back from its JSON. -/
theorem Config.ofJson?_toJson {config : Config} (h : config.dataWords < Nat.pow 2 64) :
    ofJson? config.toJson = some config := by
  have hrecord : Json.record? ["stack_top", "data_base", "data_words"] config.toJson =
      some [some (Json.ofWord config.stackTop), some (Json.ofWord config.dataBase),
        some (Json.int config.dataWords)] := rfl
  rw [ofJson?, hrecord]
  simp only [Option.bind_eq_bind, Option.bind_some, Json.fieldOr, Json.word?_ofWord,
    Json.natural?_int h]
  rfl

/-- The registers are read back from their JSON. -/
theorem registersOfJson?_ofWords (registers : Vector Word 32) :
    registersOfJson? (Json.ofWords registers.toList) = some registers := by
  rw [registersOfJson?, Json.words?_ofWords]
  simp only [Option.bind_eq_bind, Option.bind_some, dif_pos registers.length_toList]
  rfl

/-- A processor is read back from its JSON. -/
theorem Cpu.ofJson?_toJson {cpu : Cpu} (h : cpu.config.dataWords < Nat.pow 2 64) :
    ofJson? cpu.toJson = some cpu := by
  have hrecord : Json.record? ["pc", "gpr", "cfg"] cpu.toJson =
      some [some (Json.ofWord cpu.pc), some (Json.ofWords cpu.registers.toList),
        some cpu.config.toJson] := rfl
  rw [ofJson?, hrecord]
  simp only [Option.bind_eq_bind, Option.bind_some, Json.word?_ofWord, registersOfJson?_ofWords,
    Config.ofJson?_toJson h]
  rfl

/-- Words are legible. -/
theorem Json.legible_ofWords (words : List Word) : (ofWords words).legible = ofWords words := by
  have hitems : legibleItems (words.map ofWord) = words.map ofWord := by
    induction words with
    | nil => rfl
    | cons word words ih =>
      rw [List.map_cons, legibleItems, ih]
      rfl
  rw [ofWords, legible, hitems]

/-- The JSON of a processor is legible. -/
theorem Cpu.legible_toJson (cpu : Cpu) : cpu.toJson.legible = cpu.toJson := by
  simp only [toJson, Json.legible, Json.legibleMembers, Json.legible_ofWords]
  rfl

/-- The platform of this library shows states. -/
theorem Platform.showsStates_standard : standard.ShowsStates := by
  intro cpu h
  refine ⟨cpu.pretty_toJson, ?_⟩
  show (Json.parse? cpu.toJson.pretty).bind Cpu.ofJson? = some cpu
  rw [Json.parse?_pretty, cpu.legible_toJson, Option.bind_some, Cpu.ofJson?_toJson h]

end MiniRisc
