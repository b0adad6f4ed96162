import MiniRisc.Proofs.Agreement
import MiniRisc.Proofs.Placement
import MiniRisc.Proofs.Steps

/-!
# Which lines halt by branching to themselves

The word that halts is the word of a `beq` of two zeros whose offset has no bit in the places that
a branch keeps. Offsets are accepted in more bits than a branch keeps, so there are others beside
zero that give the word, and all of them are told as lost. Every accepted source has such a line,
and the machine halts in this way only at such lines.
-/

namespace MiniRisc

/-- A branch stores nothing of an offset without bits in the twelve places above the lowest. -/
theorem Format.stored_eq_zero_iff {offset : Int} : B.stored offset = 0 ↔ offset / 2 % 4096 = 0 := by
  simp only [stored, Int.bmod]
  omega

/-- The fields of a branch on equal registers. -/
def Fields.branchOnEqual (a b : Byte) (offset : Int) : Fields where
  opcode := Op.beq.row.opcode
  rs1 := a
  rs2 := b
  imm := offset

/-- A branch on equal registers keeps the parts of the word that halts if both registers are zero
and nothing is stored of the offset. -/
theorem Fields.kept_branchOnEqual_iff {s t : String} {a b : Byte} {offset : Int}
    (hs : Register.ofName? s = some a) (ht : Register.ofName? t = some b) :
    Format.B.kept (branchOnEqual a b offset) = Format.B.split Word.virtualHalt ↔
      a = Register.zero ∧ b = Register.zero ∧ offset / 2 % 4096 = 0 := by
  have hsplit : Format.B.split Word.virtualHalt =
      branchOnEqual Register.zero Register.zero 0 := by decide
  have hkept : Format.B.kept (branchOnEqual a b offset) =
      branchOnEqual a b (Format.B.stored offset) := by
    simp only [Format.kept, branchOnEqual, Register.cut_of_ofName? hs, Register.cut_of_ofName? ht]
    rfl
  rw [hsplit, hkept, ← Format.stored_eq_zero_iff]
  simp only [branchOnEqual, Fields.mk.injEq, true_and]

/-- A branch on equal registers gives the word that halts if both registers are zero and the offset
is accepted with nothing stored of it. -/
theorem Fields.join_branchOnEqual_iff {s t : String} {a b : Byte} {offset : Int}
    (hs : Register.ofName? s = some a) (ht : Register.ofName? t = some b) :
    Format.B.join (branchOnEqual a b offset) = .ok Word.virtualHalt ↔
      a = Register.zero ∧ b = Register.zero ∧ Signed.Fits 16 offset ∧ offset / 2 % 4096 = 0 := by
  have hk := @kept_branchOnEqual_iff s t a b offset hs ht
  constructor
  · intro hj
    obtain ⟨ha, hb, ho⟩ := hk.1 ((Format.eq_iff_of_join hj rfl).1 rfl)
    exact ⟨ha, hb, (Format.join_eq_ok_iff.1 hj).1.resolve_left (by decide), ho⟩
  · rintro ⟨ha, hb, hf, ho⟩
    have hj : Format.B.join (branchOnEqual a b offset) = .ok _ :=
      Format.join_eq_ok_iff.2 ⟨.inr hf, rfl⟩
    rw [hj, (Format.eq_iff_of_join hj rfl).2 (hk.2 ⟨ha, hb, ho⟩)]

namespace Site

/-- The operands of a branch on equal registers are two registers and an offset. -/
theorem fields_beq_eq_ok_iff {site : Site} {operands : List String} {fields : Fields} :
    site.fields .beq operands = .ok fields ↔
      ∃ s t token a b offset, operands = [s, t, token] ∧ Register.ofName? s = some a ∧
        Register.ofName? t = some b ∧ site.Denotes token offset ∧
        fields = Fields.branchOnEqual a b offset := by
  rw [fields_eq_ok_iff]
  simp only [Op.slots, Op.slotsIn, Op.format, Op.row, Format.slots, Fills,
    List.forall₂_cons_left_iff, List.forall₂_nil_left_iff]
  constructor
  · rintro ⟨⟨s, _, hs, ⟨t, _, ht, ⟨token, _, hd, rfl, rfl⟩, rfl⟩, rfl⟩, he⟩
    exact ⟨s, t, token, _, _, _, rfl, hs, ht, hd, he⟩
  · rintro ⟨s, t, token, a, b, offset, rfl, hs, ht, hd, rfl⟩
    exact ⟨⟨s, _, hs, ⟨t, _, ht, ⟨token, _, hd, rfl, rfl⟩, rfl⟩, rfl⟩, rfl⟩

end Site

namespace PlacedLine

/-- A line is a branch on equality whose register operands are both zero and whose last operand
stands for an offset. -/
def BranchesOnZeros (labels : LabelTable) (line : PlacedLine) (offset : Int) : Prop :=
  ∃ first s t token, line.tokens = [first, s, t, token] ∧ first.toLower = "beq" ∧
    Register.ofName? s = some Register.zero ∧ Register.ofName? t = some Register.zero ∧
    Site.Denotes ⟨line.address, labels⟩ token offset

/-- A line branches on zeros by an offset of sixteen bits with none in the places 12 to 1. -/
def EndsBy (labels : LabelTable) (line : PlacedLine) (offset : Int) : Prop :=
  line.BranchesOnZeros labels offset ∧ Signed.Fits 16 offset ∧ offset / 2 % 4096 = 0

/-- What a line that ends a program is encoded as: the word that halts, and the offset as lost
unless it is zero. -/
def ending (line : PlacedLine) (offset : Int) : Encoded where
  word := Word.virtualHalt
  loss := if offset = 0 then none else some ⟨.beq, line.address, offset, 0⟩

/-- A branch on zeros whose word halts has its offset told as lost unless it is zero. -/
theorem loss?_eq_loss_ending {labels : LabelTable} {line : PlacedLine} {offset : Int}
    (hf : Signed.Fits 16 offset) (ho : offset / 2 % 4096 = 0) :
    Site.loss? ⟨line.address, labels⟩ .beq
      (Fields.branchOnEqual Register.zero Register.zero offset) Word.virtualHalt =
        (line.ending offset).loss := by
  have hz : Register.ofName? "zero" = some Register.zero := by decide
  have hw : Op.beq.format.join (Fields.branchOnEqual Register.zero Register.zero offset) =
      .ok Word.virtualHalt :=
    (Fields.join_branchOnEqual_iff hz hz).2 ⟨rfl, rfl, hf, ho⟩
  have hs : Op.beq.format.stored offset = 0 := Format.stored_eq_zero_iff.2 ho
  have hl : Site.loss? ⟨line.address, labels⟩ .beq
      (Fields.branchOnEqual Register.zero Register.zero offset) Word.virtualHalt =
        if Op.beq.format.stored offset = offset then none
        else some ⟨.beq, line.address, offset, Op.beq.format.stored offset⟩ :=
    Site.loss?_of_join (.inl rfl) hw
  rw [hl, hs, ending]
  simp only [eq_comm]

/-- A line is encoded as the word that halts exactly if it ends a program, and then with its offset
told as lost unless it is zero. -/
theorem encode_virtualHalt_iff {labels : LabelTable} {line : PlacedLine} {encoded : Encoded} :
    Site.encode ⟨line.address, labels⟩ line.tokens = .ok encoded ∧
        encoded.word = Word.virtualHalt ↔
      ∃ offset, line.EndsBy labels offset ∧ encoded = line.ending offset := by
  rw [Site.encode_eq_ok_iff]
  constructor
  · rintro ⟨⟨first, operands, op, fields, word, ht, hn, hf, hw, rfl⟩, hv⟩
    obtain rfl : word = Word.virtualHalt := hv
    obtain ⟨instruction, hi, rfl, -, -⟩ := Site.ofWord?_of_fields hf hw
    obtain rfl : { op := .beq, format := .B, raw := Word.virtualHalt } = instruction :=
      Option.some.inj hi
    obtain ⟨s, t, token, a, b, offset, rfl, hs, htoken, hd, rfl⟩ := Site.fields_beq_eq_ok_iff.1 hf
    obtain ⟨rfl, rfl, hfits, ho⟩ := (Fields.join_branchOnEqual_iff hs htoken).1 hw
    refine ⟨offset, ⟨⟨first, s, t, token, ht, Op.named?_eq_some_iff.1 hn, hs, htoken, hd⟩, hfits,
      ho⟩, ?_⟩
    rw [loss?_eq_loss_ending hfits ho]
    rfl
  · rintro ⟨offset, ⟨⟨first, s, t, token, ht, hn, hs, htoken, hd⟩, hfits, ho⟩, rfl⟩
    have hf := Site.fields_beq_eq_ok_iff.2
      ⟨s, t, token, _, _, offset, rfl, hs, htoken, hd, rfl⟩
    have hw := (Fields.join_branchOnEqual_iff hs htoken).2 ⟨rfl, rfl, hfits, ho⟩
    refine ⟨⟨first, _, .beq, _, _, ht, Op.named?_eq_some_iff.2 hn, hf, hw, ?_⟩, rfl⟩
    rw [loss?_eq_loss_ending hfits ho]
    rfl

/-- A line gives the word that halts exactly if it ends a program. -/
theorem gives_virtualHalt_iff {labels : LabelTable} {line : PlacedLine} :
    line.Gives labels Word.virtualHalt ↔ ∃ offset, line.EndsBy labels offset := by
  simp only [Gives, encode_virtualHalt_iff]
  constructor
  · rintro ⟨_, offset, he, -⟩
    exact ⟨offset, he⟩
  · rintro ⟨offset, he⟩
    exact ⟨_, offset, he, rfl⟩

/-- The target that a line that ends a program asks for is its own address only if the offset is
zero. -/
theorem EndsBy.target_eq_iff {labels : LabelTable} {line : PlacedLine} {offset : Int}
    (h : line.EndsBy labels offset) :
    line.address + BitVec.ofInt 32 offset = line.address ↔ offset = 0 := by
  obtain ⟨-, ⟨hl, hu⟩, -⟩ := h
  rw [BitVec.add_right_eq_self]
  constructor
  · intro hz
    have hh : Signed.half 16 = 32768 := by decide
    calc offset = (BitVec.ofInt 32 offset).toInt := by
          rw [BitVec.toInt_ofInt]
          exact (Int.bmod_eq_of_le (by omega) (by omega)).symm
      _ = 0 := congrArg BitVec.toInt hz
  · rintro rfl
    rfl

end PlacedLine

namespace Assembly

/-- The word in a place of an accepted source is the one that halts exactly if the line in the
place ends the program. -/
theorem getElem?_words_eq_virtualHalt_iff {source : String} {assembly : Assembly}
    (ha : ofSource source = .ok assembly) {placement : Placement}
    (hp : Placement.ofSource source = .ok placement) {place : Nat} :
    assembly.words[place]? = some Word.virtualHalt ↔
      ∃ (line : PlacedLine) (offset : Int), placement.lines[place]? = some line ∧
        line.EndsBy placement.labels offset := by
  constructor
  · intro hword
    obtain ⟨line, hline, hg⟩ := line_of_word ha hp hword
    obtain ⟨offset, he⟩ := PlacedLine.gives_virtualHalt_iff.1 hg
    exact ⟨line, offset, hline, he⟩
  · rintro ⟨line, offset, hline, he⟩
    obtain ⟨word, hword, hg⟩ := word_of_line ha hp hline
    rw [hword, hg.unique (PlacedLine.gives_virtualHalt_iff.2 ⟨offset, he⟩)]

/-- A word of an accepted source halts exactly if its line branches on zeros by an offset of which
nothing is stored. Such a line is encoded as this word with the offset told as lost unless it is
zero, which is when the line asks to branch to itself. Every accepted source has such a line, and
the machine halts by branching to itself only at the address of one. -/
theorem virtualHalt_iff_endsBy {source : String} {assembly : Assembly}
    (ha : ofSource source = .ok assembly) {placement : Placement}
    (hp : Placement.ofSource source = .ok placement) :
    (∀ place : Nat, assembly.words[place]? = some Word.virtualHalt ↔
        ∃ (line : PlacedLine) (offset : Int), placement.lines[place]? = some line ∧
          line.EndsBy placement.labels offset) ∧
      (∀ (line : PlacedLine) (offset : Int), line.EndsBy placement.labels offset →
        Site.encode ⟨line.address, placement.labels⟩ line.tokens = .ok (line.ending offset) ∧
          (line.address + BitVec.ofInt 32 offset = line.address ↔ offset = 0)) ∧
      (∃ line ∈ placement.lines, ∃ offset, line.EndsBy placement.labels offset) ∧
      ∀ state after : State, state.step assembly.program = (after, .ok (.halted .virtual)) →
        ∃ line ∈ placement.lines, ∃ offset, line.address = state.cpu.pc ∧
          line.EndsBy placement.labels offset := by
  have hwords := @getElem?_words_eq_virtualHalt_iff source assembly ha placement hp
  refine ⟨@hwords, fun line offset he => ⟨?_, he.target_eq_iff⟩, ?_, fun state after hs => ?_⟩
  · exact (PlacedLine.encode_virtualHalt_iff.2 ⟨offset, he, rfl⟩).1
  · obtain ⟨_, -, -, hm, -⟩ := ofSource_eq_ok_iff.1 ha
    obtain ⟨place, hplace⟩ := List.mem_iff_getElem?.1 hm
    obtain ⟨line, offset, hl, he⟩ := hwords.1 hplace
    exact ⟨line, List.mem_of_getElem? hl, offset, he⟩
  · cases State.does_of_step hs with
    | virtualHalt hf =>
      obtain ⟨place, hplace, hpc⟩ := Program.exists_place_of_fetch? hf
      rw [program, List.getElem?_toArray] at hplace
      obtain ⟨line, offset, hl, he⟩ := hwords.1 hplace
      exact ⟨line, List.mem_of_getElem? hl, offset,
        (Placement.address_of_ofSource hp hl).trans hpc.symm, he⟩

/-- Of two branches on zeros, one by a lost offset and one to itself, both halt the machine. -/
theorem virtualHalt_iff_endsBy_twice :
    ∃ assembly, ofSource "beq zero, zero, 8192\nend: BEQ zero, zero, end" = .ok assembly ∧
      (∃ offset, PlacedLine.EndsBy [("end", 4)] ⟨1, 0, ["beq", "zero", "zero", "8192"]⟩ offset) ∧
      ∀ state after : State, state.step assembly.program = (after, .ok (.halted .virtual)) →
        state.cpu.pc = 0 ∨ state.cpu.pc = 4 := by
  have ha : ofSource "beq zero, zero, 8192\nend: BEQ zero, zero, end" =
      .ok ⟨[0x00000063, 0x00000063], [("end", 4)]⟩ := by
    decide +kernel
  have hp : Placement.ofSource "beq zero, zero, 8192\nend: BEQ zero, zero, end" =
      .ok ⟨[⟨1, 0, ["beq", "zero", "zero", "8192"]⟩, ⟨2, 4, ["BEQ", "zero", "zero", "end"]⟩],
        [("end", 4)]⟩ := by
    decide +kernel
  obtain ⟨hwords, -, -, hsteps⟩ := virtualHalt_iff_endsBy ha hp
  refine ⟨_, ha, ?_, fun state after hs => ?_⟩
  · obtain ⟨line, offset, hl, he⟩ := (hwords 0).1 rfl
    obtain rfl := Option.some.inj hl
    exact ⟨offset, he⟩
  · obtain ⟨line, hl, offset, hpc, -⟩ := hsteps state after hs
    rw [← hpc]
    simp only [List.mem_cons, List.not_mem_nil, or_false] at hl
    obtain rfl | rfl := hl
    · exact .inl rfl
    · exact .inr rfl

/-- The only branch of a source asks for another address and still gives the word that halts, so the
source is accepted without a branch to itself. -/
theorem virtualHalt_of_lost_offset :
    ∃ assembly placement, ofSource "beq zero, zero, 8192" = .ok assembly ∧
      Placement.ofSource "beq zero, zero, 8192" = .ok placement ∧
      assembly.words[0]? = some Word.virtualHalt ∧
      (¬ ∃ line ∈ placement.lines, line.BranchesOnZeros placement.labels 0) ∧
      ∀ state : State, state.cpu.pc = 0 →
        state.step assembly.program = (state, .ok (.halted .virtual)) := by
  have ha : ofSource "beq zero, zero, 8192" = .ok ⟨[0x00000063], []⟩ := by decide +kernel
  have hp : Placement.ofSource "beq zero, zero, 8192" =
      .ok ⟨[⟨1, 0, ["beq", "zero", "zero", "8192"]⟩], []⟩ := by
    decide +kernel
  refine ⟨_, _, ha, hp, rfl, ?_, fun state hpc => ?_⟩
  · rintro ⟨line, hl, first, s, t, token, ht, -, -, -, hd⟩
    obtain rfl := List.mem_singleton.1 hl
    obtain ⟨rfl, rfl, rfl, rfl⟩ : "beq" = first ∧ "zero" = s ∧ "zero" = t ∧ "8192" = token := by
      simpa only [List.cons.injEq, and_true] using ht
    have hn : Immediate.ofToken? "8192" = some (.value 8192) := by decide +kernel
    obtain hv | ⟨hv, -⟩ := hd
    · exact absurd (hn.symm.trans hv) (by decide)
    · exact absurd (hn.symm.trans hv) (by decide)
  · have hf : (program ⟨[0x00000063], []⟩).fetch? 0 = some Word.virtualHalt := rfl
    simp only [State.step, hpc, hf, if_true]

end Assembly

end MiniRisc
