import Mathlib.Data.List.Permutation
import MiniRisc.Proofs.ListingText
import MiniRisc.Proofs.Rereading

/-!
# A listing is a source of its program

The words that the assembler makes are canonical, so their texts make them again. Where a listing
writes the name of a target in place of an offset, the name is a label of its own address, and the
distance to it is the offset that the word stores. The text of a listing therefore makes the words
that were listed.
-/

namespace MiniRisc

/-- The offset between two addresses in the lower half of the address space is the distance between
them. -/
theorem Word.toInt_eq_distance {here target offset : Word} (h : here + offset = target)
    (hh : here.toNat < 2147483648) (ht : target.toNat < 2147483648) :
    offset.toInt = (target.toNat : Int) - (here.toNat : Int) := by
  have hadd : target.toNat = (here.toNat + offset.toNat) % 4294967296 := by
    rw [← h, BitVec.toNat_add]
  have hlt := offset.isLt
  rw [BitVec.toInt_eq_toNat_cond]
  simp only [Nat.reducePow] at hlt ⊢
  split <;> omega

/-- A line that gives a word gives one that stands for an instruction and is canonical. -/
theorem PlacedLine.canonical_of_gives {labels : LabelTable} {line : PlacedLine} {word : Word}
    (h : line.Gives labels word) :
    (∃ instruction, Instruction.ofWord? word = some instruction) ∧ word.canonical = word := by
  obtain ⟨encoded, he, rfl⟩ := h
  obtain ⟨_, _, op, fields, word, -, -, hf, hw, rfl⟩ := Site.encode_eq_ok_iff.1 he
  obtain ⟨instruction, hi, -⟩ := Site.ofWord?_of_fields hf hw
  exact ⟨⟨instruction, hi⟩, Instruction.canonical_of_fields hf hw⟩

namespace Instruction

/-- The operands of an instruction are neat. -/
theorem neat_operands (instruction : Instruction) :
    ∀ operand ∈ (instruction.written none).operands, Text.Neat operand.toList := by
  intro operand ho
  obtain ⟨source, -, rfl⟩ := List.mem_map.1 ho
  exact source.neat_text

/-- A listed instruction is neat, whether its target has a name or not. -/
theorem neat_listed (instruction : Instruction) (address : Word) (targets : List Word) :
    Text.Neat (instruction.listed address targets).toList := by
  have hm := (Op.mnemonic_spec instruction.op).1
  simp only [listed]
  split
  case isTrue =>
    refine Written.neat_text hm fun operand ho => ?_
    dsimp only [replaceLast] at ho
    split at ho
    case isTrue => cases ho
    case isFalse =>
      rcases List.mem_append.1 ho with ho | ho
      · exact instruction.neat_operands operand (List.dropLast_subset _ ho)
      · obtain rfl := List.mem_singleton.1 ho
        exact .of_solid (Word.solid_targetName _)
  case isFalse => exact Written.neat_text hm instruction.neat_operands

/-- A branch or jump with another last operand still names its registers before it. -/
theorem replaceLast_operands {op : Op} (ho : op.format.hasOffset = true)
    (word : Word) (last : String) :
    replaceLast ((reading op word).written none).operands last =
      op.slots.dropLast.map (fun slot => ((reading op word).registerAt slot).text none) ++
        [last] := by
  cases op
  case beq | bne | blt | bge | bltu | bgeu | jal => rfl
  all_goals exact absurd ho (by decide)

/-- The tokens of a listed branch or jump whose target has a name end with the name. -/
theorem tokensOfText_listed {op : Op} (ho : op.format.hasOffset = true)
    {word address : Word} {targets : List Word}
    (ht : targets.contains (address + (reading op word).imm) = true) :
    tokensOfText ((reading op word).listed address targets) =
      op.mnemonic :: (op.slots.dropLast.map (reading op word).token ++
        [(address + (reading op word).imm).targetName]) := by
  have hn := tokensOfText_solid (Word.solid_targetName (address + (reading op word).imm))
  have hc : ((reading op word).format.hasOffset &&
      targets.contains (address + (reading op word).imm)) = true := by
    rw [ht, Bool.and_true]
    exact ho
  rw [listed, if_pos hc, Written.tokensOfText_text (Op.mnemonic_spec op).1]
  refine congrArg (List.cons op.mnemonic) ?_
  dsimp only
  rw [replaceLast_operands ho, List.flatMap_append, List.flatMap_singleton, hn,
    List.flatMap_map]
  simp only [tokensOfText_register]
  cases op
  case beq | bne | blt | bge | bltu | bgeu | jal => rfl
  all_goals exact absurd ho (by decide)

end Instruction

/-- The name of a target fills the slot of the immediate with the distance to it. -/
theorem Site.fills_targetName {site : Site} {op : Op} {word target : Word}
    (hl : site.labels.address? target.targetName = some target)
    (hi : (op.format.split word).imm = (target.toNat : Int) - (site.address.toNat : Int)) :
    site.Fills (op.format.split word) .imm target.targetName :=
  .inr ⟨Word.ofToken?_targetName target, target, hl, hi⟩

/-- A branch or jump whose registers and target name are given makes its word again. -/
theorem Site.encode_to_target (site : Site) {op : Op} (hr : op ∈ Op.regular)
    (ho : op.format.hasOffset = true) {word target : Word}
    (hh : op.Heads (op.format.split word))
    (hl : site.labels.address? target.targetName = some target)
    (hi : (op.format.split word).imm = (target.toNat : Int) - (site.address.toNat : Int)) :
    ∃ encoded, site.encode (op.mnemonic ::
        (op.slots.dropLast.map (Instruction.reading op word).token ++ [target.targetName])) =
          .ok encoded ∧ encoded.word = word.canonical := by
  have ht : site.Fills (op.format.split word) .imm target.targetName := fills_targetName hl hi
  have hf := Instruction.fills_token site op word
  refine encode_of_fills hr hh ?_
  cases op
  case beq | bne | blt | bge | bltu | bgeu =>
    exact .cons (hf .rs1) (.cons (hf .rs2) (.cons ht .nil))
  case jal => exact .cons (hf .rd) (.cons ht .nil)
  all_goals exact absurd ho (by decide)

/-- A listed word is what its line gives, if the targets are labels of their own addresses. -/
theorem PlacedLine.gives_listed {labels : LabelTable} {line : PlacedLine} {word : Word}
    {targets : List Word} {instruction : Instruction}
    (hw : Instruction.ofWord? word = some instruction) (hc : word.canonical = word)
    (hl : ∀ target ∈ targets, labels.address? target.targetName = some target)
    (hh : line.address.toNat < 2147483648) (ht : ∀ target ∈ targets, target.toNat < 2147483648)
    (htokens : line.tokens = tokensOfText (word.listed line.address targets)) :
    line.Gives labels word := by
  have hlisted : word.listed line.address targets = instruction.listed line.address targets := by
    rw [Word.listed, hw]
  rw [hlisted] at htokens
  rw [PlacedLine.Gives, htokens]
  by_cases hn : (instruction.format.hasOffset &&
      targets.contains (line.address + instruction.imm)) = true
  · obtain ⟨ho, hm⟩ := Bool.and_eq_true_iff.1 hn
    obtain ⟨-, rfl⟩ | ⟨-, rfl⟩ | ⟨-, rfl⟩ | ⟨op, hr, hheads, rfl⟩ :=
      Instruction.cases_of_ofWord? hw
    · cases ho
    · cases ho
    · cases ho
    · have hmem := List.contains_iff_mem.1 hm
      have himm := Instruction.toInt_imm_reading op word
      rw [Word.toInt_eq_distance rfl hh (ht _ hmem)] at himm
      obtain ⟨encoded, he, hcanonical⟩ :=
        Site.encode_to_target ⟨line.address, labels⟩ hr ho hheads (hl _ hmem) himm.symm
      rw [Instruction.tokensOfText_listed ho hm]
      exact ⟨encoded, he, hcanonical.trans hc⟩
  · have hplain : instruction.listed line.address targets = instruction.text := by
      rw [Instruction.listed, if_neg hn]
      rfl
    obtain ⟨encoded, he, hcanonical⟩ := Site.encode_text ⟨line.address, labels⟩ hw
    rw [hplain]
    exact ⟨encoded, he, hcanonical.trans hc⟩

/-- The name of a target that is listed is a label of its own address. -/
theorem ListingLine.address?_targetName {targets : List Word} {lines : List ListingLine}
    {target : Word} (ht : target ∈ targets) (hl : target ∈ lines.map (·.address)) :
    LabelTable.address? (lines.flatMap (labels targets)) target.targetName = some target := by
  obtain ⟨line, hline, rfl⟩ := List.mem_map.1 hl
  have hmem : (line.address.targetName, line.address) ∈ line.labels targets := by
    rw [labels, if_pos (List.contains_iff_mem.2 ht)]
    exact List.mem_cons_self
  have hall : (line.address.targetName, line.address) ∈ lines.flatMap (labels targets) :=
    List.mem_flatMap.2 ⟨line, hline, hmem⟩
  cases hv : LabelTable.address? (lines.flatMap (labels targets)) line.address.targetName with
  | none => exact absurd rfl (bne_iff_ne.1 (List.lookup_eq_none_iff.1 hv _ hall))
  | some value =>
    obtain ⟨front, back, hsplit, -⟩ := List.lookup_eq_some_iff.1 hv
    have hvalue : (line.address.targetName, value) ∈ lines.flatMap (labels targets) :=
      hsplit ▸ List.mem_append_right front List.mem_cons_self
    obtain ⟨other, -, ho⟩ := List.mem_flatMap.1 hvalue
    rw [address_unique ho hmem]

namespace Listing

/-- The lines of a listing stand at consecutive addresses from zero. -/
theorem map_address_lines (source : NamedProgram) (entries : List Word) (walk : Walk)
    (named : Bool) :
    (ofWalk source entries walk named).lines.map (·.address) =
      (List.range' 0 source.program.words.size).map Program.addressOf := by
  rw [← Array.length_toList, ← List.zipIdx_map_snd 0 source.program.words.toList, List.map_map]
  simp only [ofWalk, Program.placed, List.map_map]
  rfl

/-- The lines of a listing have the words of the program. -/
theorem map_word_lines (source : NamedProgram) (entries : List Word) (walk : Walk)
    (named : Bool) :
    (ofWalk source entries walk named).lines.map (·.word) = source.program.words.toList := by
  refine Eq.trans ?_ (List.zipIdx_map_fst 0 source.program.words.toList)
  simp only [ofWalk, Program.placed, List.map_map]
  rfl

/-- The text of a line of a listing is that of its word where it stands. -/
theorem text_of_mem_lines (source : NamedProgram) (entries : List Word) (walk : Walk)
    (named : Bool) : ∀ line ∈ (ofWalk source entries walk named).lines,
      line.text = line.word.listed line.address (ofWalk source entries walk named).targets := by
  intro line h
  obtain ⟨⟨address, word⟩, -, rfl⟩ := List.mem_map.1 h
  rfl

end Listing

namespace Program

/-- Addresses do not repeat before they wrap. -/
theorem nodup_map_addressOf {count : Nat} (h : count ≤ 1073741824) :
    ((List.range' 0 count).map addressOf).Nodup := by
  refine List.Nodup.map_on (fun first hf second hs he => ?_) List.nodup_range'
  have hfirst := List.mem_range'_1.1 hf
  have hsecond := List.mem_range'_1.1 hs
  have hnumber := congrArg BitVec.toNat he
  rw [toNat_addressOf (by omega), toNat_addressOf (by omega)] at hnumber
  omega

end Program

/-- Every word of an accepted source stands for an instruction and is canonical. -/
theorem Assembly.canonical_of_mem {source : String} {assembly : Assembly}
    (h : Assembly.ofSource source = .ok assembly) {word : Word} (hw : word ∈ assembly.words) :
    (∃ instruction, Instruction.ofWord? word = some instruction) ∧ word.canonical = word := by
  obtain ⟨placement, -, hall, -, -⟩ := Assembly.ofSource_eq_ok_iff.1 h
  obtain ⟨place, hlt, rfl⟩ := List.mem_iff_getElem.1 hw
  exact PlacedLine.canonical_of_gives (hall.get (hall.length_eq ▸ hlt) hlt)

/-- The text of a listing of canonical words makes these words, if the lines stand at consecutive
addresses in the lower half of the address space and all named targets are listed. -/
theorem Listing.ofSource_text {listing : Listing}
    (ha : listing.lines.map (·.address) =
      (List.range' 0 listing.lines.length).map Program.addressOf)
    (hn : listing.lines.length < 536870912)
    (ht : ∀ line ∈ listing.lines, line.text = line.word.listed line.address listing.targets)
    (hw : ∀ line ∈ listing.lines, (∃ instruction,
      Instruction.ofWord? line.word = some instruction) ∧ line.word.canonical = line.word)
    (hm : ∀ target ∈ listing.targets, target ∈ listing.lines.map (·.address))
    (hv : Word.virtualHalt ∈ listing.lines.map (·.word)) :
    Assembly.ofSource (listing.text false) = .ok ⟨listing.lines.map (·.word),
      listing.lines.flatMap (ListingLine.labels listing.targets)⟩ := by
  have hneat : ∀ line ∈ listing.lines, Text.Neat line.text.toList := by
    intro line hl
    obtain ⟨instruction, hi⟩ := (hw line hl).1
    rw [ht line hl, Word.listed, hi]
    exact instruction.neat_listed line.address listing.targets
  have hsmall : ∀ address ∈ listing.lines.map (·.address), address.toNat < 2147483648 := by
    intro address hl
    rw [ha] at hl
    obtain ⟨place, hp, rfl⟩ := List.mem_map.1 hl
    have hlt := List.mem_range'_1.1 hp
    rw [Program.toNat_addressOf (by omega)]
    omega
  have hd : (listing.lines.map (·.address)).Nodup :=
    ha ▸ Program.nodup_map_addressOf (by omega)
  obtain ⟨placed, hplaced, hall⟩ := Placement.ofLines_flatMap_rows ha hd hneat
    (fun _ _ _ _ => rfl : ∀ line ∈ listing.lines, ∀ entry ∈ line.labels listing.targets,
      LabelTable.address? [] entry.1 = none) 1
  rw [← Listing.lines_text_shown (fun line hl => (hneat line hl).not_mem_breaks) false] at hplaced
  refine Assembly.ofSource_eq_ok_iff.2 ⟨_, hplaced, ?_, hv, rfl⟩
  obtain ⟨hlength, hzip⟩ := List.forall₂_iff_zip.1 hall
  refine List.forall₂_map_right_iff.2 (List.forall₂_iff_zip.2 ⟨hlength, fun hmem => ?_⟩)
  obtain ⟨hat, htokens⟩ := hzip hmem
  have hl := (List.of_mem_zip hmem).2
  obtain ⟨⟨instruction, hi⟩, hc⟩ := hw _ hl
  rw [ht _ hl, ← hat] at htokens
  exact PlacedLine.gives_listed hi hc
    (fun target htarget => ListingLine.address?_targetName htarget (hm target htarget))
    (hat ▸ hsmall _ (List.mem_map_of_mem hl)) (fun target htarget => hsmall _ (hm target htarget))
    htokens

/-- The text of a listing of an accepted source makes the words of the source, whatever walk the
listing goes with, as long as the targets that it names hold instructions. -/
theorem Assembly.ofSource_ofWalk {source : String} {assembly : Assembly}
    (ha : Assembly.ofSource source = .ok assembly) (hn : assembly.words.length < 536870912)
    {name : String} {entries : List Word} {walk : Walk} {named : Bool}
    (ht : ∀ target ∈ (Listing.ofWalk ⟨name, assembly.program⟩ entries walk named).targets,
      assembly.program.holds target = true) :
    ∃ again, Assembly.ofSource
        ((Listing.ofWalk ⟨name, assembly.program⟩ entries walk named).text false) = .ok again ∧
      again.words = assembly.words := by
  have haddress := Listing.map_address_lines ⟨name, assembly.program⟩ entries walk named
  have hword := Listing.map_word_lines ⟨name, assembly.program⟩ entries walk named
  have htext := Listing.text_of_mem_lines ⟨name, assembly.program⟩ entries walk named
  generalize Listing.ofWalk ⟨name, assembly.program⟩ entries walk named = listing at *
  have hwords : listing.lines.map (·.word) = assembly.words := hword
  have hlength : listing.lines.length = assembly.words.length := by
    rw [← hwords, List.length_map]
  have haddress' : listing.lines.map (·.address) =
      (List.range' 0 listing.lines.length).map Program.addressOf := by
    rw [hlength]
    exact haddress
  have hcanonical : ∀ line ∈ listing.lines, (∃ instruction,
      Instruction.ofWord? line.word = some instruction) ∧ line.word.canonical = line.word :=
    fun line hl => canonical_of_mem ha (hwords ▸ List.mem_map_of_mem hl)
  have hlisted : ∀ target ∈ listing.targets, target ∈ listing.lines.map (·.address) :=
    fun target hm => haddress ▸ Program.mem_of_holds (ht target hm)
  obtain ⟨_, -, -, hv, -⟩ := ofSource_eq_ok_iff.1 ha
  exact ⟨_, Listing.ofSource_text haddress' (hlength ▸ hn) htext hcanonical hlisted (hwords ▸ hv),
    hwords⟩

/-- The text of a listing of an accepted source, with or without the names of targets, is accepted
and makes the words that were listed. The program must end in the lower half of the address space,
and named targets must hold instructions. -/
theorem Assembly.ofSource_listing {source : String} {assembly : Assembly}
    (ha : Assembly.ofSource source = .ok assembly) (hn : assembly.words.length < 536870912)
    (name : String) (entries : List Word) (limit : Nat) (named : Bool)
    (ht : named = true → ∀ target ∈
      (Listing.ofProgram ⟨name, assembly.program⟩ entries limit named).targets,
      assembly.program.holds target = true) :
    ∃ again, Assembly.ofSource
        ((Listing.ofProgram ⟨name, assembly.program⟩ entries limit named).text false) = .ok again ∧
      again.words = assembly.words := by
  refine ofSource_ofWalk ha hn ?_
  cases named with
  | false => exact fun target hm => absurd hm List.not_mem_nil
  | true => exact ht rfl

/-- A loop is listed with the name of the target of its branch, and its listing makes its words. -/
theorem Assembly.ofSource_listing_loop :
    ∃ assembly again, Assembly.ofSource
          "top: addi t0, t0, 1\nbne t0, t1, top\nbeq zero, zero, 0" = .ok assembly ∧
      (Listing.ofProgram ⟨"loop", assembly.program⟩ [0] 8 true).targets = [0] ∧
      Assembly.ofSource ((Listing.ofProgram ⟨"loop", assembly.program⟩ [0] 8 true).text false) =
        .ok again ∧ again.words = assembly.words := by
  have ha : Assembly.ofSource "top: addi t0, t0, 1\nbne t0, t1, top\nbeq zero, zero, 0" =
      .ok ⟨[0x00128293, 0xFE629EE3, 0x00000063], [("top", 0)]⟩ := by decide +kernel
  have ht : (Listing.ofProgram ⟨"loop", ⟨#[0x00128293, 0xFE629EE3, 0x00000063]⟩⟩ [0] 8
      true).targets = [0] := by cbv
  have hholds : Program.holds ⟨#[0x00128293, 0xFE629EE3, 0x00000063]⟩ 0 = true := rfl
  obtain ⟨again, hagain, hwords⟩ :=
    ofSource_listing ha (by decide) "loop" [0] 8 true fun _ target hm => by
      obtain rfl : target = 0 := List.mem_singleton.1 (ht ▸ hm)
      exact hholds
  exact ⟨_, again, ha, ht, hagain, hwords⟩

end MiniRisc
