import MiniRisc.Assembly
import MiniRisc.Program
import MiniRisc.Proofs.Operands

/-!
# Where the words of a program come from

Placing gives the instructions of a source consecutive addresses from zero, whatever blank lines,
comments and labels stand between them. A source that is accepted has one word for every placed
line, made from the line where it stands with all labels known.
-/

namespace MiniRisc

namespace Program

/-- The address of a place as a number, before addresses wrap. -/
theorem toNat_addressOf {place : Nat} (h : place < 1073741824) :
    (addressOf place).toNat = 4 * place := by
  rw [addressOf, BitVec.toNat_ofNat]
  exact Nat.mod_eq_of_lt (by omega)

/-- The distance between two places adds to the address of the first. -/
theorem addressOf_add (first second : Nat) :
    addressOf first + addressOf second = addressOf (first + second) := by
  rw [addressOf, addressOf, addressOf, Nat.mul_add, BitVec.ofNat_add]

/-- The address after that of a place. -/
theorem addressOf_succ (place : Nat) : 4 + addressOf place = addressOf (place + 1) := by
  rw [Nat.add_comm, ← addressOf_add]
  rfl

end Program

/-- A statement adds its label to a table that does not have it yet. -/
theorem Statement.define_eq_ok_iff {statement : Statement} {labels more : LabelTable}
    {address : Word} :
    statement.define labels address = .ok more ↔
      more = labels ++ statement.label.toList.map (·, address) ∧
        ∀ name ∈ statement.label, labels.address? name = none := by
  unfold define LabelTable.define?
  cases statement.label with
  | none => simp [eq_comm]
  | some name => cases hn : labels.address? name <;> simp [hn, eq_comm]

namespace Placement

/-- A line is placed by adding its label to the table, and its instruction, if it has one, before
those of the lines that follow. -/
theorem ofLines_cons_eq_ok_iff {number : Nat} {address : Word} {labels : LabelTable}
    {line : List Char} {rest : List (List Char)} {placement : Placement} :
    ofLines number address labels (line :: rest) = .ok placement ↔
      ∃ statement more, Statement.ofLine line = .ok statement ∧
        statement.define labels address = .ok more ∧
        (statement.body = [] ∧ ofLines (number + 1) address more rest = .ok placement ∨
          statement.body ≠ [] ∧ ∃ after, ofLines (number + 1) (address + 4) more rest = .ok after ∧
            placement = { after with
              lines := ⟨number, address, tokensOf statement.body⟩ :: after.lines }) := by
  cases hs : Statement.ofLine line with
  | error defect => simp [ofLines, hs]
  | ok statement =>
    cases hd : statement.define labels address with
    | error defect => simp [ofLines, hs, hd]
    | ok more =>
      cases hb : statement.body with
      | nil => simp [ofLines, hs, hd, hb]
      | cons c body =>
        simp only [ofLines, hs, hd, hb, List.isEmpty_cons, Bool.false_eq_true, if_false, map_eq_ok,
          Except.ok.injEq, exists_and_left, exists_eq_left', reduceCtorEq, false_and, false_or,
          ne_eq, not_false_eq_true, true_and]
        simp only [eq_comm]

/-- The instructions of a source stand at consecutive multiples of four. -/
theorem address_of_ofLines {number : Nat} {address : Word} {labels : LabelTable}
    {lines : List (List Char)} {placement : Placement}
    (h : ofLines number address labels lines = .ok placement) {place : Nat} {line : PlacedLine}
    (hp : placement.lines[place]? = some line) :
    line.address = address + Program.addressOf place := by
  induction lines generalizing number address labels placement place with
  | nil =>
    obtain rfl := Except.ok.inj h
    cases hp
  | cons first rest ih =>
    obtain ⟨_, _, -, -, ⟨-, ha⟩ | ⟨-, after, ha, rfl⟩⟩ := ofLines_cons_eq_ok_iff.1 h
    · exact ih ha hp
    · cases place with
      | zero =>
        obtain rfl := Option.some.inj hp
        exact (BitVec.add_zero address).symm
      | succ place => rw [ih ha hp, BitVec.add_assoc, Program.addressOf_succ]

/-- The instruction in a place of a source stands at the address of the place. -/
theorem address_of_ofSource {source : String} {placement : Placement}
    (h : ofSource source = .ok placement) {place : Nat} {line : PlacedLine}
    (hp : placement.lines[place]? = some line) : line.address = Program.addressOf place := by
  exact (address_of_ofLines h hp).trans (BitVec.zero_add _)

end Placement

/-- A word is what a line is encoded as where it stands. -/
def PlacedLine.Gives (labels : LabelTable) (line : PlacedLine) (word : Word) : Prop :=
  ∃ encoded, Site.encode ⟨line.address, labels⟩ line.tokens = .ok encoded ∧ encoded.word = word

/-- A line gives one word at most. -/
theorem PlacedLine.Gives.unique {labels : LabelTable} {line : PlacedLine} {first second : Word}
    (hf : line.Gives labels first) (hs : line.Gives labels second) : first = second := by
  obtain ⟨encoded, he, rfl⟩ := hf
  obtain ⟨encoded', he', rfl⟩ := hs
  exact congrArg Encoded.word (Except.ok.inj (he.symm.trans he'))

/-- Encoding lines meets no error exactly if every line gives a word. -/
theorem encodeLines_iff {labels : LabelTable} {lines : List PlacedLine} {words : List Word} :
    (encodeLines labels lines).2 = none ∧
        (encodeLines labels lines).1.map (·.encoded.word) = words ↔
      List.Forall₂ (PlacedLine.Gives labels) lines words := by
  induction lines generalizing words with
  | nil => simp [encodeLines, eq_comm]
  | cons line rest ih =>
    cases he : Site.encode ⟨line.address, labels⟩ line.tokens with
    | error error => simp [encodeLines, he, List.forall₂_cons_left_iff, PlacedLine.Gives]
    | ok encoded =>
      simp only [encodeLines, he, List.forall₂_cons_left_iff, PlacedLine.Gives, ← ih,
        Except.ok.injEq, List.map_cons]
      constructor
      · rintro ⟨hn, rfl⟩
        exact ⟨_, _, ⟨encoded, rfl, rfl⟩, ⟨hn, rfl⟩, rfl⟩
      · rintro ⟨_, _, ⟨_, rfl, rfl⟩, ⟨hn, rfl⟩, rfl⟩
        exact ⟨hn, rfl⟩

/-- A source is accepted exactly if it can be placed, every line gives the word in its place, and
one of the words ends the program. -/
theorem Assembly.ofSource_eq_ok_iff {source : String} {assembly : Assembly} :
    Assembly.ofSource source = .ok assembly ↔
      ∃ placement, Placement.ofSource source = .ok placement ∧
        List.Forall₂ (PlacedLine.Gives placement.labels) placement.lines assembly.words ∧
        Word.virtualHalt ∈ assembly.words ∧ assembly.labels = placement.labels := by
  cases hp : Placement.ofSource source with
  | error error => simp [Assembly.ofSource, run, hp]
  | ok placement =>
    simp only [Assembly.ofSource, run, hp, ← encodeLines_iff, Except.ok.injEq, exists_eq_left']
    cases he : encodeLines placement.labels placement.lines with
    | mk lines error =>
      cases error with
      | some error => simp
      | none =>
        obtain ⟨words, labels⟩ := assembly
        simp only [List.contains_iff_mem, true_and]
        split
        case isTrue hm =>
          simp only [Except.ok.injEq, Assembly.mk.injEq]
          constructor
          · rintro ⟨rfl, rfl⟩
            exact ⟨rfl, hm, rfl⟩
          · rintro ⟨rfl, -, rfl⟩
            exact ⟨rfl, rfl⟩
        case isFalse hm =>
          simp only [reduceCtorEq, false_iff]
          rintro ⟨rfl, h, -⟩
          exact hm h

namespace Assembly

/-- The program of an accepted source. -/
def program (assembly : Assembly) : Program := ⟨assembly.words.toArray⟩

section

variable {source : String} {assembly : Assembly} (ha : ofSource source = .ok assembly)
  {placement : Placement} (hp : Placement.ofSource source = .ok placement)

include ha hp

/-- Every line of an accepted source gives the word in its place. -/
theorem forall₂_gives : List.Forall₂ (PlacedLine.Gives placement.labels) placement.lines
    assembly.words := by
  obtain ⟨_, hp', hw, -, -⟩ := ofSource_eq_ok_iff.1 ha
  obtain rfl := Except.ok.inj (hp.symm.trans hp')
  exact hw

/-- The line in a place gives the word in the place. -/
theorem word_of_line {place : Nat} {line : PlacedLine} (hl : placement.lines[place]? = some line) :
    ∃ word, assembly.words[place]? = some word ∧ line.Gives placement.labels word := by
  have hw := forall₂_gives ha hp
  obtain ⟨hlt, rfl⟩ := List.getElem?_eq_some_iff.1 hl
  have hlt' : place < assembly.words.length := hw.length_eq ▸ hlt
  exact ⟨assembly.words[place], List.getElem?_eq_getElem hlt', hw.get hlt hlt'⟩

/-- The word in a place is given by the line in the place. -/
theorem line_of_word {place : Nat} {word : Word} (hword : assembly.words[place]? = some word) :
    ∃ line, placement.lines[place]? = some line ∧ line.Gives placement.labels word := by
  have hw := forall₂_gives ha hp
  obtain ⟨hlt, rfl⟩ := List.getElem?_eq_some_iff.1 hword
  have hlt' : place < placement.lines.length := hw.length_eq ▸ hlt
  exact ⟨placement.lines[place], List.getElem?_eq_getElem hlt', hw.get hlt' hlt⟩

/-- The word of a line stands at the address of the line, if addresses do not wrap. -/
theorem fetch?_of_ofSource (hn : placement.lines.length < 1073741824) {line : PlacedLine}
    (hl : line ∈ placement.lines) :
    ∃ word, assembly.program.fetch? line.address = some word ∧
      line.Gives placement.labels word := by
  obtain ⟨place, hplace⟩ := List.mem_iff_getElem?.1 hl
  obtain ⟨word, hword, hg⟩ := word_of_line ha hp hplace
  obtain ⟨hlt, -⟩ := List.getElem?_eq_some_iff.1 hplace
  refine ⟨word, ?_, hg⟩
  rw [Placement.address_of_ofSource hp hplace, Program.fetch?_addressOf (by omega), program,
    List.getElem?_toArray, hword]

end

end Assembly

end MiniRisc
