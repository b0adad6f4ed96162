import MiniRisc.Proofs.LabelTarget

/-!
# Which offsets are told as lost

Branches and jumps accept offsets that their words do not store. The warnings about an accepted
source are those of the lines whose word is read with another offset than the line asks for, in the
order of the lines, and each tells the address of the line and both offsets. Which offsets are lost
depends on the format alone.
-/

namespace MiniRisc

/-- An offset that is not what a word of the format stores of it: odd, or for a branch beyond
thirteen bits, or for a jump with different bits in the places 10 and 11. -/
def Format.Loses (format : Format) (offset : Int) : Prop :=
  match format with
  | .B => offset % 2 = 1 ∨ offset < -4096 ∨ 4094 < offset
  | .J => offset % 2 = 1 ∨ offset / 1024 % 2 ≠ offset / 2048 % 2
  | .R | .I | .S | .U => False

/-- An offset is lost exactly if something else is stored of it. -/
theorem Format.stored_eq_self_iff {format : Format} (h : format.hasOffset = true) {offset : Int} :
    format.stored offset = offset ↔ ¬ format.Loses offset := by
  cases format <;> simp only [hasOffset, Bool.false_eq_true] at h
  case B =>
    simp only [stored, Loses, Int.bmod]
    omega
  case J =>
    simp only [stored, Loses]
    omega

/-- A word is read as an operation with an offset. -/
def Word.ReadsOffset (word : Word) (op : Op) (offset : Int) : Prop :=
  ∃ instruction, Instruction.ofWord? word = some instruction ∧ instruction.op = op ∧
    instruction.imm.toInt = offset

/-- A word is read with one offset. -/
theorem Word.ReadsOffset.unique {word : Word} {op op' : Op} {offset offset' : Int}
    (h : word.ReadsOffset op offset) (h' : word.ReadsOffset op' offset') : offset = offset' := by
  obtain ⟨instruction, hi, -, rfl⟩ := h
  obtain ⟨instruction', hi', -, rfl⟩ := h'
  rw [Option.some.inj (hi.symm.trans hi')]

namespace Site

/-- A token stands for one integer. -/
theorem Denotes.unique {site : Site} {token : String} {value value' : Int}
    (h : site.Denotes token value) (h' : site.Denotes token value') : value = value' := by
  have hi : site.immediate 0 token = .ok value := immediate_eq_ok_iff.2 h
  have hi' : site.immediate 0 token = .ok value' := immediate_eq_ok_iff.2 h'
  exact Except.ok.inj (hi.symm.trans hi')

/-- The last operand of a branch or jump stands for its offset. -/
theorem denotes_last {site : Site} {op : Op} (hj : op.isBranch = true ∨ op = .jal)
    {operands : List String} {fields : Fields} (h : site.fields op operands = .ok fields) :
    ∃ before token, operands = before ++ [token] ∧ site.Denotes token fields.imm := by
  have ho := (fields_eq_ok_iff.1 h).1
  cases op <;> simp only [Op.isBranch, Bool.false_eq_true, reduceCtorEq, or_self] at hj
  all_goals
    simp only [Op.slots, Op.slotsIn, Op.format, Op.row, Format.slots, Fills,
      List.forall₂_cons_left_iff, List.forall₂_nil_left_iff] at ho
  case jal =>
    obtain ⟨d, _, -, ⟨token, _, hd, rfl, rfl⟩, rfl⟩ := ho
    exact ⟨[d], token, rfl, hd⟩
  all_goals
    obtain ⟨s, _, -, ⟨t, _, -, ⟨token, _, hd, rfl, rfl⟩, rfl⟩, rfl⟩ := ho
    exact ⟨[s, t], token, rfl, hd⟩

end Site

namespace PlacedLine

/-- A line names an operation. -/
def Names (line : PlacedLine) (op : Op) : Prop :=
  ∃ first operands, line.tokens = first :: operands ∧ Op.named? first.toLower = some op

/-- A line asks for a branch or jump by an offset: the number that is its last operand, or the
distance from the line to the label there. -/
def Asks (labels : LabelTable) (line : PlacedLine) (op : Op) (offset : Int) : Prop :=
  ∃ first operands token, line.tokens = first :: (operands ++ [token]) ∧
    Op.named? first.toLower = some op ∧ (op.isBranch = true ∨ op = .jal) ∧
    Site.Denotes ⟨line.address, labels⟩ token offset

/-- What is told about the offset of a line with its word: nothing if the line is no branch or jump,
or if the word is read with the offset that the line asks for, and otherwise the address of the line
and both offsets. -/
inductive Tells (labels : LabelTable) (line : PlacedLine) (word : Word) :
    Option OffsetLoss → Prop where
  /-- The line has no offset. -/
  | other {op : Op} (hn : line.Names op) (hj : ¬ (op.isBranch = true ∨ op = .jal)) :
    Tells labels line word none
  /-- The word has the offset of the line. -/
  | kept {op : Op} {offset : Int} (ha : line.Asks labels op offset)
    (hr : word.ReadsOffset op offset) : Tells labels line word none
  /-- The word has another offset. -/
  | lost {op : Op} {wanted stored : Int} (ha : line.Asks labels op wanted)
    (hr : word.ReadsOffset op stored) (hs : stored ≠ wanted) :
    Tells labels line word (some ⟨op, line.address, wanted, stored⟩)

/-- The word of a branch or jump is read with what the format stores of the offset, and the offset
is lost if that is another. -/
theorem Asks.reads_of_encode {labels : LabelTable} {line : PlacedLine} {op : Op} {offset : Int}
    (h : line.Asks labels op offset) {encoded : Encoded}
    (he : Site.encode ⟨line.address, labels⟩ line.tokens = .ok encoded) :
    encoded.word.ReadsOffset op (op.format.stored offset) ∧
      encoded.loss = if op.format.stored offset = offset then none
        else some ⟨op, line.address, offset, op.format.stored offset⟩ := by
  obtain ⟨first, operands, token, ht, hn, hj, hd⟩ := h
  obtain ⟨_, _, _, fields, word, ht', hn', hf, hw, rfl⟩ := Site.encode_eq_ok_iff.1 he
  obtain ⟨rfl, rfl⟩ := List.cons.inj (ht.symm.trans ht')
  obtain rfl := Option.some.inj (hn.symm.trans hn')
  obtain ⟨before, last, ho, hlast⟩ := Site.denotes_last hj hf
  obtain ⟨-, rfl⟩ := List.append_singleton_inj.1 ho
  obtain rfl := hd.unique hlast
  obtain ⟨instruction, hi, rfl, -, hs⟩ := Site.ofWord?_of_fields hf hw
  obtain ⟨⟨value, hv, hm⟩, -⟩ := Site.spells_jump hj hs
  obtain rfl := hd.unique hv
  exact ⟨⟨instruction, hi, rfl, hm⟩, Site.loss?_of_join hj hw⟩

/-- The word of a branch or jump is read with the offset of the line exactly if none is lost. -/
theorem Asks.readsOffset_iff {labels : LabelTable} {line : PlacedLine} {op : Op} {offset : Int}
    (h : line.Asks labels op offset) {encoded : Encoded}
    (he : Site.encode ⟨line.address, labels⟩ line.tokens = .ok encoded) :
    encoded.word.ReadsOffset op offset ↔ encoded.loss = none := by
  obtain ⟨hr, hl⟩ := h.reads_of_encode he
  rw [hl]
  constructor
  · exact fun h' => if_pos (hr.unique h')
  · intro hn
    split at hn
    case isTrue hs => exact hs ▸ hr
    case isFalse => cases hn

/-- An offset is lost exactly if its format loses it. -/
theorem Asks.loss_iff_loses {labels : LabelTable} {line : PlacedLine} {op : Op} {offset : Int}
    (h : line.Asks labels op offset) {encoded : Encoded}
    (he : Site.encode ⟨line.address, labels⟩ line.tokens = .ok encoded) :
    encoded.loss ≠ none ↔ op.format.Loses offset := by
  obtain ⟨-, hl⟩ := h.reads_of_encode he
  obtain ⟨-, -, -, -, -, hj, -⟩ := h
  have hs : op.format.stored offset = offset ↔ ¬ op.format.Loses offset :=
    Format.stored_eq_self_iff (Op.hasOffset_format_iff.2 hj)
  rw [hl]
  split
  case isTrue h' => exact iff_of_false (fun hn => hn rfl) (hs.1 h')
  case isFalse h' => exact iff_of_true (Option.some_ne_none _) (not_not.1 (mt hs.2 h'))

/-- What a line is encoded as tells about its offset. -/
theorem tells_of_encode {labels : LabelTable} {line : PlacedLine} {encoded : Encoded}
    (he : Site.encode ⟨line.address, labels⟩ line.tokens = .ok encoded) :
    line.Tells labels encoded.word encoded.loss := by
  obtain ⟨first, operands, op, fields, word, ht, hn, hf, -, he'⟩ := Site.encode_eq_ok_iff.1 he
  by_cases hj : op.isBranch = true ∨ op = .jal
  case neg =>
    rw [he', Site.loss?_of_not_jump hj]
    exact .other ⟨first, operands, ht, hn⟩ hj
  case pos =>
    obtain ⟨before, token, rfl, hd⟩ := Site.denotes_last hj hf
    have ha : line.Asks labels op fields.imm := ⟨first, before, token, ht, hn, hj, hd⟩
    obtain ⟨hr, hl⟩ := ha.reads_of_encode he
    rw [hl]
    split
    case isTrue hs => exact .kept ha (hs ▸ hr)
    case isFalse hs => exact .lost ha hr hs

end PlacedLine

/-- An entry of a log is the warning about a lost offset: it shows the address of the instruction
and the offset that was asked for, both in decimal, and its message names the operation and ends
with the offset that the word is read with. -/
structure OffsetLoss.IsToldBy (loss : OffsetLoss) (entry : LogEntry) : Prop where
  /-- It is a warning. -/
  level : entry.level = .warn
  /-- It has two named values. -/
  fields : entry.fields =
    [("addr", toString loss.address.toNat), ("offset", toString loss.wanted)]
  /-- It has the other offset in its message. -/
  message : entry.message = loss.op.mnemonic ++ " offset does not survive encoding; decodes to " ++
    toString loss.stored

/-- A lost offset is told by its entry. -/
theorem OffsetLoss.isToldBy_logEntry (loss : OffsetLoss) : loss.IsToldBy loss.logEntry :=
  ⟨rfl, rfl, rfl⟩

/-- An entry tells a lost offset only if it is its entry. -/
theorem OffsetLoss.IsToldBy.eq_logEntry {loss : OffsetLoss} {entry : LogEntry}
    (h : loss.IsToldBy entry) : entry = loss.logEntry := by
  obtain ⟨level, message, fields⟩ := entry
  obtain ⟨rfl, rfl, rfl⟩ := h
  rfl

/-- Every line that is kept was encoded where it stands. -/
theorem encode_of_mem_encodeLines {labels : LabelTable} {lines : List PlacedLine} :
    ∀ line ∈ (encodeLines labels lines).1,
      Site.encode ⟨line.source.address, labels⟩ line.source.tokens = .ok line.encoded := by
  induction lines with
  | nil => exact List.forall_mem_nil _
  | cons line rest ih =>
    cases he : Site.encode ⟨line.address, labels⟩ line.tokens with
    | error error => simp [encodeLines, he]
    | ok encoded =>
      simp only [encodeLines, he, List.forall_mem_cons]
      exact ⟨trivial, ih⟩

/-- Every line is kept if all can be encoded. -/
theorem sources_encodeLines {labels : LabelTable} {lines : List PlacedLine}
    (h : (encodeLines labels lines).2 = none) :
    (encodeLines labels lines).1.map (·.source) = lines := by
  induction lines with
  | nil => rfl
  | cons line rest ih =>
    cases he : Site.encode ⟨line.address, labels⟩ line.tokens with
    | error error => simp [encodeLines, he] at h
    | ok encoded =>
      simp only [encodeLines, he] at h ⊢
      rw [List.map_cons, ih h]

namespace AssemblyRun

/-- The warnings among what is told about the work on a source. -/
def warnings (run : AssemblyRun) : List LogEntry := run.logEntries.filter (·.level == .warn)

/-- The warnings are the entries of the lost offsets in the order of their lines. -/
theorem warnings_eq_losses (run : AssemblyRun) :
    run.warnings = (run.lines.filterMap (·.encoded.loss)).map OffsetLoss.logEntry := by
  have hline : ∀ line : EncodedLine, line.logEntries.filter (·.level == .warn) =
      line.encoded.loss.toList.map OffsetLoss.logEntry := fun line => by
    cases hl : line.encoded.loss <;> simp [EncodedLine.logEntries, Encoded.logEntries, hl]
    rfl
  rw [warnings, logEntries]
  generalize run.lines = lines
  induction lines with
  | nil => rfl
  | cons line rest ih =>
    rw [List.flatMap_cons, List.filter_append, ih, hline, List.filterMap_cons]
    cases line.encoded.loss <;> rfl

/-- The warnings tell the lost offsets in the order of their lines. -/
theorem warnings_tell_losses (run : AssemblyRun) :
    List.Forall₂ OffsetLoss.IsToldBy (run.lines.filterMap (·.encoded.loss)) run.warnings := by
  rw [warnings_eq_losses, List.forall₂_map_right_iff, List.forall₂_same]
  exact fun loss _ => loss.isToldBy_logEntry

end AssemblyRun

namespace Assembly

section

variable {source : String} {assembly : Assembly} (ha : ofSource source = .ok assembly)
  {placement : Placement} (hp : Placement.ofSource source = .ok placement)

include ha hp

/-- The work on an accepted source keeps all its lines with their words. -/
theorem lines_run : (run source).lines.map (·.source) = placement.lines ∧
    (run source).lines.map (·.encoded.word) = assembly.words ∧
    ∀ line ∈ (run source).lines,
      Site.encode ⟨line.source.address, placement.labels⟩ line.source.tokens =
        .ok line.encoded := by
  obtain ⟨hn, hwords⟩ := encodeLines_iff.2 (forall₂_gives ha hp)
  have hl : (run source).lines = (encodeLines placement.labels placement.lines).1 := by
    simp only [run, hp, hn]
    split <;> rfl
  rw [hl]
  exact ⟨sources_encodeLines hn, hwords, encode_of_mem_encodeLines⟩

/-- The warnings about an accepted source tell the lost offsets of its lines in their order, with
the address of the line, the offset that it asks for and the other offset with which its word is
read. Such a loss goes with a line exactly if it is a branch or jump whose word is read with
another offset, which is so exactly if the format loses the offset. There are no warnings exactly
if every branch and jump is read with the offset that its line asks for. -/
theorem warnings_iff_loses :
    (run source).lines.map (·.source) = placement.lines ∧
      (run source).lines.map (·.encoded.word) = assembly.words ∧
      List.Forall₂ OffsetLoss.IsToldBy ((run source).lines.filterMap (·.encoded.loss))
        (run source).warnings ∧
      (∀ line ∈ (run source).lines,
        line.source.Tells placement.labels line.encoded.word line.encoded.loss ∧
          ∀ (op : Op) (offset : Int), line.source.Asks placement.labels op offset →
            (line.encoded.loss ≠ none ↔ op.format.Loses offset)) ∧
      ((run source).warnings = [] ↔ ∀ line ∈ (run source).lines, ∀ (op : Op) (offset : Int),
        line.source.Asks placement.labels op offset →
          line.encoded.word.ReadsOffset op offset) := by
  obtain ⟨hsources, hwords, hall⟩ := lines_run ha hp
  have hwarnings := (run source).warnings_eq_losses
  refine ⟨hsources, hwords, (run source).warnings_tell_losses,
    fun line hl => ⟨?_, fun op offset hasks => ?_⟩, ?_⟩
  · exact PlacedLine.tells_of_encode (hall line hl)
  · exact hasks.loss_iff_loses (hall line hl)
  · rw [hwarnings, List.map_eq_nil_iff, List.filterMap_eq_nil_iff]
    constructor
    · exact fun hnone line hl op offset hasks =>
        (hasks.readsOffset_iff (hall line hl)).2 (hnone line hl)
    · intro hreads line hl
      cases hloss : line.encoded.loss with
      | none => rfl
      | some loss =>
        have htells := PlacedLine.tells_of_encode (hall line hl)
        rw [hloss] at htells
        cases htells with
        | lost hasks hr hs => exact absurd (hr.unique (hreads line hl _ _ hasks)) hs

end

/-- A jump and a branch with lost offsets are told with them, so some line is read with another
offset than it asks for. -/
theorem warnings_iff_loses_twice :
    ∃ assembly placement,
      ofSource "jal ra, 1024\nbeq a0, a1, 4098\nend: beq zero, zero, end" = .ok assembly ∧
      Placement.ofSource "jal ra, 1024\nbeq a0, a1, 4098\nend: beq zero, zero, end" =
        .ok placement ∧
      (run "jal ra, 1024\nbeq a0, a1, 4098\nend: beq zero, zero, end").warnings =
        [⟨.warn, "jal offset does not survive encoding; decodes to 3072",
            [("addr", "0"), ("offset", "1024")]⟩,
          ⟨.warn, "beq offset does not survive encoding; decodes to -4094",
            [("addr", "4"), ("offset", "4098")]⟩] ∧
      ¬ ∀ line ∈ (run "jal ra, 1024\nbeq a0, a1, 4098\nend: beq zero, zero, end").lines,
        ∀ (op : Op) (offset : Int), line.source.Asks placement.labels op offset →
          line.encoded.word.ReadsOffset op offset := by
  have ha : ofSource "jal ra, 1024\nbeq a0, a1, 4098\nend: beq zero, zero, end" =
      .ok ⟨[0x401000EF, 0x80B50163, 0x00000063], [("end", 8)]⟩ := by
    decide +kernel
  have hp : Placement.ofSource "jal ra, 1024\nbeq a0, a1, 4098\nend: beq zero, zero, end" =
      .ok ⟨[⟨1, 0, ["jal", "ra", "1024"]⟩, ⟨2, 4, ["beq", "a0", "a1", "4098"]⟩,
        ⟨3, 8, ["beq", "zero", "zero", "end"]⟩], [("end", 8)]⟩ := by
    decide +kernel
  have hl : (run "jal ra, 1024\nbeq a0, a1, 4098\nend: beq zero, zero, end").lines.filterMap
      (·.encoded.loss) = [⟨.jal, 0, 1024, 3072⟩, ⟨.beq, 4, 4098, -4094⟩] := by
    decide +kernel
  obtain ⟨-, -, htold, -, hnone⟩ := warnings_iff_loses ha hp
  rw [hl, List.forall₂_cons_left_iff] at htold
  obtain ⟨first, rest, hfirst, hrest, hw⟩ := htold
  rw [List.forall₂_cons_left_iff] at hrest
  obtain ⟨second, last, hsecond, hlast, rfl⟩ := hrest
  obtain rfl := List.forall₂_nil_left_iff.1 hlast
  rw [hfirst.eq_logEntry, hsecond.eq_logEntry] at hw
  refine ⟨_, _, ha, hp, hw.trans (by decide +kernel), fun hreads => ?_⟩
  rw [hnone.2 hreads] at hw
  cases hw

end Assembly

end MiniRisc
