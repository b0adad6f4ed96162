import MiniRisc.Proofs.DumpedMemory
import MiniRisc.Proofs.Reachability
import MiniRisc.Proofs.Relisting

/-!
# Which names of a listing are defined

A listing writes the name of a target in place of an offset wherever its walk has an edge to the
target, and defines the name on a row of its own before the word at the target. The walk has edges
to addresses that hold no word too, since control can go there. So a name that a listing uses is
defined exactly if its address holds a word; then it is defined once, right before the word.
-/

namespace MiniRisc

/-- An address is that of a place of the program exactly if it holds a word. -/
theorem Program.holds_iff_mem {program : Program} {address : Word} :
    program.holds address = true ↔
      address ∈ (List.range' 0 program.words.size).map addressOf := by
  refine ⟨mem_of_holds, fun hm => ?_⟩
  obtain ⟨place, hp, rfl⟩ := List.mem_map.1 hm
  have hlt := List.mem_range'_1.1 hp
  have hnumber : (addressOf place).toNat = 4 * place % 4294967296 := BitVec.toNat_ofNat _ _
  have haligned : (addressOf place).toNat % 4 = 0 := by omega
  have hplace : (addressOf place).toNat / 4 < program.words.size := by omega
  rw [holds, fetch?, if_pos haligned, Array.getElem?_eq_getElem hplace]
  rfl

/-- The named addresses of a listing are the targets of the edges that do not fall through. -/
theorem Walk.mem_targets_iff {walk : Walk} {target : Word} :
    target ∈ walk.targets ↔
      ∃ edge ∈ walk.edges, edge.kind ≠ .fallthrough ∧ edge.target = target := by
  simp only [targets, mem_sortedAddresses, List.mem_eraseDups, List.mem_map, List.mem_filter,
    bne_iff_ne, and_assoc]

/-- A token that is marked as the name of a target. -/
def IsTargetName (token : String) : Prop := ['l', 'o', 'c', '_'] <+: token.toList

/-- The name of a target is marked. -/
theorem Word.isTargetName (target : Word) : IsTargetName target.targetName :=
  ⟨target.hexDigits, target.toList_targetName.symm⟩

/-- The name of a register is not marked as that of a target. -/
theorem Register.not_isTargetName (register : Byte) : ¬ IsTargetName (name register) := by
  have hall : ∀ place : Fin 32, ¬ ['l', 'o', 'c', '_'] <+: names[place.val].toList := by
    decide +kernel
  exact hall (index register)

namespace Word

/-- A number is not marked as the name of a target. -/
theorem not_isTargetName_signedDecimal (value : Word) : ¬ IsTargetName value.signedDecimal := by
  have hnumber := Immediate.ofToken?_signedDecimal value
  rintro ⟨rest, hr⟩
  rw [Immediate.ofToken?, ← hr] at hnumber
  cases hnumber

/-- A hexadecimal numeral is not marked as the name of a target. -/
theorem not_isTargetName_hex (value : Word) : ¬ IsTargetName value.hex := by
  rintro ⟨rest, hr⟩
  exact absurd (List.cons.inj (hr.trans value.toList_hex)).1 (by decide)

/-- A directive is two tokens. -/
theorem tokensOfText_directive (word : Word) :
    tokensOfText word.directive = [".word", word.hex] := by
  have hs : ".word ".toList = ".word".toList ++ [' '] := rfl
  have hm : tokensOf ".word".toList = [".word"] := by decide +kernel
  have hh : tokensOf word.hex.toList = [word.hex] := tokensOfText_solid word.solid_hex
  rw [tokensOfText, directive, String.toList_append, hs, List.append_assoc,
    List.singleton_append, tokensOf_append_cons (.inl (by decide)), hm, hh, List.singleton_append]

/-- A directive is on one line. -/
theorem directive_not_mem_breaks (word : Word) :
    '\n' ∉ word.directive.toList ∧ '\r' ∉ word.directive.toList := by
  have hh := (Text.Neat.of_solid word.solid_hex).not_mem_breaks
  have hs : ".word ".toList = ['.', 'w', 'o', 'r', 'd', ' '] := rfl
  rw [directive, String.toList_append, hs]
  exact ⟨by simpa using hh.1, by simpa using hh.2⟩

end Word

namespace Instruction

/-- No token of an instruction without names is marked as the name of a target. -/
theorem not_isTargetName_token (instruction : Instruction) (slot : Slot) :
    ¬ IsTargetName (instruction.token slot) := by
  cases slot
  case imm => exact Word.not_isTargetName_signedDecimal instruction.imm
  case rd | rs1 | rs2 => exact Register.not_isTargetName _

/-- A listed instruction uses a name only if that is the name of its own target, which has one. -/
theorem target_of_mem_tokens {word address : Word} {instruction : Instruction}
    {targets : List Word} (hi : ofWord? word = some instruction) {name : String}
    (h : name ∈ (tokensOfText (instruction.listed address targets)).tail)
    (hn : IsTargetName name) :
    address + instruction.imm ∈ targets ∧ name = (address + instruction.imm).targetName ∧
      instruction.format.hasOffset = true := by
  by_cases hc : (instruction.format.hasOffset &&
      targets.contains (address + instruction.imm)) = true
  case neg =>
    have ht : instruction.listed address targets = instruction.text := if_neg hc
    rw [ht, tokensOfText_text, List.tail_cons] at h
    obtain ⟨slot, -, rfl⟩ := List.mem_map.1 h
    exact absurd hn (instruction.not_isTargetName_token slot)
  case pos =>
    obtain ⟨ho, hm⟩ := Bool.and_eq_true_iff.1 hc
    refine ⟨List.contains_iff_mem.1 hm, ?_, ho⟩
    -- only operations of the look-up have a format with an offset
    obtain ⟨-, rfl⟩ | ⟨-, rfl⟩ | ⟨-, rfl⟩ | ⟨op, -, -, rfl⟩ := cases_of_ofWord? hi
    · cases ho
    · cases ho
    · cases ho
    · rw [tokensOfText_listed ho hm, List.tail_cons] at h
      rcases List.mem_append.1 h with h | h
      · obtain ⟨slot, -, rfl⟩ := List.mem_map.1 h
        exact absurd hn ((reading op word).not_isTargetName_token slot)
      · exact List.mem_singleton.1 h

end Instruction

/-- A listed word uses a name only if it is a branch, jump or call to an address that has the
name. -/
theorem Word.target_of_mem_tokens {word address : Word} {targets : List Word} {name : String}
    (h : name ∈ (tokensOfText (word.listed address targets)).tail) (hn : IsTargetName name) :
    ∃ target ∈ targets, name = target.targetName ∧
      ∃ instruction, Instruction.ofWord? word = some instruction ∧
        instruction.format.hasOffset = true ∧ address + instruction.imm = target := by
  cases hi : Instruction.ofWord? word with
  | none =>
    rw [listed, hi, tokensOfText_directive] at h
    obtain rfl := List.mem_singleton.1 h
    exact absurd hn word.not_isTargetName_hex
  | some instruction =>
    rw [listed, hi] at h
    obtain ⟨hm, he, ho⟩ := Instruction.target_of_mem_tokens hi h hn
    exact ⟨_, hm, he, instruction, rfl, ho, rfl⟩

/-- A listed word is on one line. -/
theorem Word.listed_not_mem_breaks (word address : Word) (targets : List Word) :
    '\n' ∉ (word.listed address targets).toList ∧ '\r' ∉ (word.listed address targets).toList := by
  unfold listed
  split
  case h_1 instruction _ => exact (instruction.neat_listed address targets).not_mem_breaks
  case h_2 => exact word.directive_not_mem_breaks

/-- No two addresses have the same definition. -/
theorem Word.definition_injective {first second : Word} (h : first.definition = second.definition) :
    first = second :=
  targetName_injective (String.toList_injective (List.append_cancel_right h))

namespace ListingLine

/-- The line uses a name: it has a token behind the first that is marked as one of a target. -/
def Uses (line : ListingLine) (name : String) : Prop :=
  name ∈ (tokensOfText line.text).tail ∧ IsTargetName name

/-- The row of a word is not a definition. -/
theorem row_ne_definition (line : ListingLine) (showBits : Bool) (target : Word) :
    line.row showBits ≠ target.definition := by
  intro he
  rw [row, Word.toList_shortHex, Word.definition, Word.toList_targetName] at he
  exact absurd (List.cons.inj he).1 (by decide)

section

variable {targets : List Word} {target : Word} (hm : target ∈ targets) (showBits : Bool)

include hm

/-- A line has one row that defines a named target if it stands at its address, else none. -/
theorem count_definition (line : ListingLine) :
    (line.shownRows targets showBits).count target.definition =
      if line.address = target then 1 else 0 := by
  have hrow := line.row_ne_definition showBits target
  by_cases he : line.address = target
  · have hc : targets.contains line.address = true := List.contains_iff_mem.2 (he ▸ hm)
    rw [shownRows, if_pos hc, he, if_pos rfl, List.singleton_append, List.count_cons_self,
      List.count_singleton, beq_eq_false_iff_ne.2 hrow]
    rfl
  · rw [if_neg he, List.count_eq_zero]
    intro hd
    rcases of_mem_shownRows hd with ⟨hd, -⟩ | hd
    · exact he (Word.definition_injective hd).symm
    · exact hrow hd.symm

/-- The rows define a named target once for every line at its address. -/
theorem count_definition_flatMap (lines : List ListingLine) :
    (lines.flatMap (shownRows targets showBits)).count target.definition =
      (lines.map (·.address)).count target := by
  induction lines with
  | nil => rfl
  | cons line rest ih =>
    rw [List.flatMap_cons, List.count_append, count_definition hm, ih, List.map_cons,
      List.count_cons, Nat.add_comm]
    simp only [beq_iff_eq]

end

/-- A row that defines a name stands right before the row of a line at the address. -/
theorem row_behind_definition {targets : List Word} {showBits : Bool} {lines : List ListingLine}
    {target : Word} {place : Nat}
    (h : (lines.flatMap (shownRows targets showBits))[place]? = some target.definition) :
    ∃ line ∈ lines, line.address = target ∧
      (lines.flatMap (shownRows targets showBits))[place + 1]? = some (line.row showBits) := by
  induction lines generalizing place with
  | nil => cases h
  | cons line rest ih =>
    have hrow := line.row_ne_definition showBits target
    have hskip : ∀ {next}, (rest.flatMap (shownRows targets showBits))[next]? =
        some target.definition → ∃ other ∈ line :: rest, other.address = target ∧
          (rest.flatMap (shownRows targets showBits))[next + 1]? = some (other.row showBits) := by
      intro next hn
      obtain ⟨other, ho, ha, hr⟩ := ih hn
      exact ⟨other, List.mem_cons_of_mem line ho, ha, hr⟩
    rw [List.flatMap_cons] at h ⊢
    by_cases hc : targets.contains line.address = true
    case pos =>
      rw [shownRows, if_pos hc] at h ⊢
      cases place with
      | zero =>
        have he := Word.definition_injective (Option.some.inj h)
        exact ⟨line, List.mem_cons_self, he, rfl⟩
      | succ place =>
        cases place with
        | zero => exact absurd (Option.some.inj h) hrow
        | succ next => exact hskip h
    case neg =>
      rw [shownRows, if_neg hc] at h ⊢
      cases place with
      | zero => exact absurd (Option.some.inj h) hrow
      | succ next => exact hskip h

end ListingLine

namespace Listing

/-- The rows of the text of a listing. -/
def textRows (listing : Listing) (showBits : Bool) : List (List Char) :=
  Text.lines (listing.text showBits).toList

/-- The rows of a listing define the name of an address: they have its definition once, and that
stands right before the row of a word at the address. -/
structure Defines (listing : Listing) (showBits : Bool) (target : Word) : Prop where
  /-- The definition is there once. -/
  once : (listing.textRows showBits).count target.definition = 1
  /-- The next row is that of a word at the address. -/
  before : ∀ place, (listing.textRows showBits)[place]? = some target.definition →
    ∃ line ∈ listing.lines, line.address = target ∧
      (listing.textRows showBits)[place + 1]? = some (line.row showBits)

section

variable (source : NamedProgram) (entries : List Word) (walk : Walk) (named showBits : Bool)

/-- The rows of the text of a listing are those of its lines. -/
theorem textRows_ofWalk : (ofWalk source entries walk named).textRows showBits =
    (ofWalk source entries walk named).lines.flatMap
      (ListingLine.shownRows (ofWalk source entries walk named).targets showBits) := by
  refine lines_text_shown (fun line hl => ?_) showBits
  rw [text_of_mem_lines source entries walk named line hl]
  exact line.word.listed_not_mem_breaks line.address _

/-- A listing defines a target that it names exactly if one line stands at the address. -/
theorem defines_iff_count {target : Word}
    (hm : target ∈ (ofWalk source entries walk named).targets) :
    (ofWalk source entries walk named).Defines showBits target ↔
      ((ofWalk source entries walk named).lines.map (·.address)).count target = 1 := by
  have hrows := textRows_ofWalk source entries walk named showBits
  have hcount := ListingLine.count_definition_flatMap hm showBits
    (ofWalk source entries walk named).lines
  rw [← hrows] at hcount
  constructor
  · exact fun hd => hcount.symm.trans hd.once
  · refine fun hone => ⟨hcount.trans hone, fun place hp => ?_⟩
    rw [hrows] at hp ⊢
    exact ListingLine.row_behind_definition hp

/-- A listing has the definition of a target that it names exactly if the target holds a word. -/
theorem definition_mem_iff {target : Word}
    (hm : target ∈ (ofWalk source entries walk named).targets) :
    target.definition ∈ (ofWalk source entries walk named).textRows showBits ↔
      source.program.holds target = true := by
  rw [Program.holds_iff_mem, ← map_address_lines source entries walk named, ← List.count_pos_iff,
    ← List.count_pos_iff, textRows_ofWalk, ListingLine.count_definition_flatMap hm]

end

/-- A name that a listing uses is that of an address to which the walk has an edge other than to
the next instruction. The listing has the definition of the name exactly if the address holds a
word, and defines it properly exactly if one word is listed at the address; as long as addresses do
not wrap, these come to the same. -/
theorem defines_iff_holds (source : NamedProgram) (entries : List Word) (limit : Nat)
    (showBits : Bool) {line : ListingLine} {name : String}
    (hl : line ∈ (ofProgram source entries limit true).lines) (hu : line.Uses name) :
    ∃ target, name = target.targetName ∧
      (∃ edge ∈ (source.program.walk entries limit).edges,
        edge.kind ≠ .fallthrough ∧ edge.target = target) ∧
      (target.definition ∈ (ofProgram source entries limit true).textRows showBits ↔
        source.program.holds target = true) ∧
      ((ofProgram source entries limit true).Defines showBits target ↔
        ((ofProgram source entries limit true).lines.map (·.address)).count target = 1) ∧
      (source.program.words.size ≤ 1073741824 →
        ((ofProgram source entries limit true).Defines showBits target ↔
          source.program.holds target = true)) := by
  have hu' := hu.1
  rw [text_of_mem_lines source entries _ true line hl] at hu'
  obtain ⟨target, hm, he, -⟩ := Word.target_of_mem_tokens hu' hu.2
  have hdefines := defines_iff_count source entries _ true showBits hm
  refine ⟨target, he, Walk.mem_targets_iff.1 hm,
    definition_mem_iff source entries _ true showBits hm, hdefines, fun hs => ?_⟩
  have hnodup := Program.nodup_map_addressOf hs
  rw [Program.holds_iff_mem]
  refine hdefines.trans ?_
  rw [map_address_lines]
  exact ⟨fun hone => List.count_pos_iff.1 (Nat.lt_of_lt_of_eq Nat.one_pos hone.symm),
    List.count_eq_one_of_mem hnodup⟩

/-- A register is counted up in a loop, before the halt. -/
def backToStart : NamedProgram := ⟨"loop", ⟨#[0x00128293, 0xFE629EE3, 0x00000063]⟩⟩

/-- The name of the start of the loop is used behind it and defined once before it. -/
theorem defines_iff_holds_loop :
    (∃ line ∈ (ofProgram backToStart [0] 8 true).lines,
      line.address = 4 ∧ line.Uses "loc_00000000") ∧
    (ofProgram backToStart [0] 8 true).Defines true 0 := by
  have ht : (ofProgram backToStart [0] 8 true).targets = [0] := by cbv
  have hl : ∃ line ∈ (ofProgram backToStart [0] 8 true).lines,
      line.address = 4 ∧ line.word = 0xFE629EE3 :=
    ⟨_, List.mem_map_of_mem (List.mem_cons_of_mem _ List.mem_cons_self), rfl, rfl⟩
  obtain ⟨line, hline, ha, hw⟩ := hl
  have htext : line.text = Word.listed 0xFE629EE3 4 [0] := by
    rw [← ha, ← hw, ← ht]
    exact text_of_mem_lines _ _ _ _ line hline
  have htokens : "loc_00000000" ∈ (tokensOfText (Word.listed 0xFE629EE3 4 [0])).tail := by
    decide +kernel
  have hu : line.Uses "loc_00000000" := ⟨htext ▸ htokens, Word.isTargetName 0⟩
  obtain ⟨target, hname, -, -, -, hd⟩ := defines_iff_holds _ _ _ true hline hu
  obtain rfl : 0 = target := Word.targetName_injective (hname ▸ by decide +kernel)
  exact ⟨⟨line, hline, ha, hu⟩, (hd (by decide)).2 rfl⟩

/-- A jump goes to the address behind the program, which ends with the halt. -/
def jumpBeyond : NamedProgram := ⟨"jump", ⟨#[0x0080006F, 0x00000063]⟩⟩

/-- The name of the address behind the program is used by the jump, and is not defined. -/
theorem not_defines_of_jump_beyond :
    (∃ line ∈ (ofProgram jumpBeyond [0] 8 true).lines, line.Uses "loc_00000008") ∧
      ¬ (ofProgram jumpBeyond [0] 8 true).Defines false 8 := by
  have ht : (ofProgram jumpBeyond [0] 8 true).targets = [8] := by cbv
  constructor
  · refine ⟨_, List.mem_map_of_mem List.mem_cons_self, ?_, Word.isTargetName 8⟩
    change "loc_00000008" ∈ (tokensOfText
      (Word.listed 0x0080006F 0 (ofProgram jumpBeyond [0] 8 true).targets)).tail
    rw [ht]
    decide +kernel
  · intro hd
    have hm : (8 : Word) ∈ (ofProgram jumpBeyond [0] 8 true).targets :=
      ht ▸ List.mem_singleton_self 8
    exact absurd ((defines_iff_count _ _ _ _ _ hm).1 hd) (by decide)

end Listing

end MiniRisc
