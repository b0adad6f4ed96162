import Mathlib.Data.List.Forall2
import MiniRisc.Proofs.Placement

/-!
# Sources one behind the other

A source that follows another is assembled as if it stood alone: its instructions and its labels
move together by the length of the first, so distances between them stay, and no operand of either
part is taken for a label of the other as long as no label is defined in both. Line endings, a
missing last newline and comments at the seam change nothing, since a carriage return at the end of
a line is blank and an empty last line holds nothing.
-/

namespace MiniRisc

namespace Text

/-- A blank after a text is trimmed. -/
theorem trim_append_blank {c : Char} (h : isBlank c = true) (text : List Char) :
    trim (text ++ [c]) = trim text := by
  have hc : [c].dropWhile isBlank = [] := List.dropWhile_cons_of_pos h
  rw [trim, trim, List.dropWhile_append]
  split
  case isTrue he =>
    have hnil := List.isEmpty_iff.1 he
    rw [hc, hnil]
  case isFalse =>
    rw [List.reverse_append, List.reverse_singleton, List.singleton_append,
      List.dropWhile_cons_of_pos h]

/-- A line is its part before a carriage return, or has none at its end. -/
theorem eq_dropReturn_append_or (line : List Char) :
    line = dropReturn line ++ ['\r'] ∨ dropReturn line = line := by
  unfold dropReturn
  split
  case isTrue hl => exact .inl (List.dropLast_append_getLast? '\r' hl).symm
  case isFalse => exact .inr rfl

end Text

/-- A carriage return at the end of a line is no part of what the line holds. -/
theorem significantPart_append_return (line : List Char) :
    significantPart (line ++ ['\r']) = significantPart line := by
  have hblank : Text.isBlank '\r' = true := by decide
  have hreturn : ['\r'].takeWhile (fun c => c != '#' && c != ';') = ['\r'] := by decide
  rw [significantPart, significantPart, List.takeWhile_append, hreturn]
  split
  case isTrue hl =>
    have hline := (List.takeWhile_prefix fun c => c != '#' && c != ';').eq_of_length hl
    rw [Text.trim_append_blank hblank, hline]
  case isFalse => rfl

/-- A carriage return at the end of a line changes neither what the line holds nor how it is
wrong. -/
theorem Statement.ofLine_dropReturn (line : List Char) :
    ofLine (Text.dropReturn line) = ofLine line := by
  rcases Text.eq_dropReturn_append_or line with hl | hl
  · have hpart := significantPart_append_return (Text.dropReturn line)
    have htrim : Text.trim (Text.dropReturn line ++ ['\r']) = Text.trim (Text.dropReturn line) :=
      Text.trim_append_blank (by decide) _
    rw [← hl] at hpart htrim
    simp only [ofLine, hpart, htrim]
  · rw [hl]

namespace Placement

/-- Placing sees the pieces of a text between newlines: carriage returns before the newlines and
an empty piece after the last one make no difference. -/
theorem ofLines_linesOfPieces (number : Nat) (address : Word) (labels : LabelTable)
    (pieces : List (List Char)) :
    ofLines number address labels (Text.linesOfPieces pieces) =
      ofLines number address labels pieces := by
  induction pieces generalizing number address labels with
  | nil => rfl
  | cons line rest ih =>
    cases rest with
    | nil =>
      cases line with
      | nil => rfl
      | cons c line => rfl
    | cons next more =>
      have hlines : Text.linesOfPieces (line :: next :: more) =
          Text.dropReturn line :: Text.linesOfPieces (next :: more) := rfl
      rw [hlines]
      simp only [ofLines, Statement.ofLine_dropReturn, ih]

/-- A source is placed as its pieces between newlines. -/
theorem ofSource_eq (source : String) :
    ofSource source = ofLines 1 0 [] (Text.pieces (· == '\n') source.toList) :=
  ofLines_linesOfPieces 1 0 [] _

/-- Lines are placed behind others that are placed: they get the numbers and addresses that follow,
and their labels are added to those before. -/
theorem ofLines_append {number : Nat} {address : Word} {labels : LabelTable}
    {first second : List (List Char)} {front back : Placement}
    (hf : ofLines number address labels first = .ok front)
    (hb : ofLines (number + first.length) (address + Program.addressOf front.lines.length)
      front.labels second = .ok back) :
    ofLines number address labels (first ++ second) =
      .ok { back with lines := front.lines ++ back.lines } := by
  induction first generalizing number address labels front with
  | nil =>
    obtain rfl := Except.ok.inj hf
    have hz : address + Program.addressOf 0 = address := BitVec.add_zero address
    dsimp only [List.length_nil, Nat.add_zero] at hb
    rw [hz] at hb
    exact hb
  | cons line rest ih =>
    have hnumber : number + (rest.length + 1) = number + 1 + rest.length := by omega
    rw [List.length_cons, hnumber] at hb
    obtain ⟨statement, more, hs, hd, hrest⟩ := ofLines_cons_eq_ok_iff.1 hf
    refine ofLines_cons_eq_ok_iff.2 ⟨statement, more, hs, hd, ?_⟩
    rcases hrest with ⟨hn, ha⟩ | ⟨hn, after, ha, rfl⟩
    · exact .inl ⟨hn, ih ha hb⟩
    · have haddress : address + Program.addressOf (after.lines.length + 1) =
          address + 4 + Program.addressOf after.lines.length := by
        rw [BitVec.add_assoc, Program.addressOf_succ]
      rw [List.length_cons, haddress] at hb
      exact .inr ⟨hn, _, ih ha hb, rfl⟩

end Placement

/-- The labels of a table moved by a distance. -/
def LabelTable.moved (labels : LabelTable) (distance : Word) : LabelTable :=
  labels.map fun entry => (entry.1, entry.2 + distance)

/-- A moved label is at the moved address. -/
theorem LabelTable.address?_moved (labels : LabelTable) (distance : Word) (name : String) :
    (labels.moved distance).address? name = (labels.address? name).map (· + distance) := by
  induction labels with
  | nil => rfl
  | cons entry rest ih =>
    obtain ⟨known, address⟩ := entry
    simp only [address?, moved, List.map_cons, List.lookup_cons] at ih ⊢
    rw [ih]
    cases name == known <;> rfl

/-- A line of a source moved by a number of lines and by a distance. -/
def PlacedLine.moved (line : PlacedLine) (numbers : Nat) (distance : Word) : PlacedLine :=
  { line with number := line.number + numbers, address := line.address + distance }

namespace Placement

/-- Placing only adds labels. -/
theorem labels_prefix_of_ofLines {number : Nat} {address : Word} {labels : LabelTable}
    {lines : List (List Char)} {placement : Placement}
    (h : ofLines number address labels lines = .ok placement) : labels <+: placement.labels := by
  induction lines generalizing number address labels placement with
  | nil =>
    obtain rfl := Except.ok.inj h
    exact List.prefix_refl labels
  | cons line rest ih =>
    obtain ⟨statement, more, -, hd, hrest⟩ := ofLines_cons_eq_ok_iff.1 h
    have hmore : labels <+: more := by
      rw [(Statement.define_eq_ok_iff.1 hd).1]
      exact List.prefix_append _ _
    rcases hrest with ⟨-, ha⟩ | ⟨-, after, ha, rfl⟩
    · exact hmore.trans (ih ha)
    · have hafter : more <+: after.labels := ih ha
      exact hmore.trans hafter

/-- Lines are placed behind other labels and at other addresses as they are placed by themselves,
if none of their labels is among the others. -/
theorem ofLines_moved {number : Nat} {address : Word} {labels : LabelTable}
    {lines : List (List Char)} {placement : Placement}
    (h : ofLines number address labels lines = .ok placement) {before : LabelTable}
    (hb : ∀ entry ∈ placement.labels, before.address? entry.1 = none) (numbers : Nat)
    (distance : Word) :
    ofLines (number + numbers) (address + distance) (before ++ labels.moved distance) lines =
      .ok ⟨placement.lines.map (·.moved numbers distance),
        before ++ placement.labels.moved distance⟩ := by
  induction lines generalizing number address labels placement with
  | nil =>
    obtain rfl := Except.ok.inj h
    rfl
  | cons line rest ih =>
    obtain ⟨statement, more, hs, hd, hrest⟩ := ofLines_cons_eq_ok_iff.1 h
    obtain ⟨hmore, hfree⟩ := Statement.define_eq_ok_iff.1 hd
    have hkept : more <+: placement.labels := by
      rcases hrest with ⟨-, ha⟩ | ⟨-, after, ha, rfl⟩
      · exact labels_prefix_of_ofLines ha
      · have hafter : more <+: after.labels := labels_prefix_of_ofLines ha
        exact hafter
    have hd' : statement.define (before ++ labels.moved distance) (address + distance) =
        .ok (before ++ more.moved distance) := by
      refine Statement.define_eq_ok_iff.2 ⟨?_, fun name hn => ?_⟩
      · rw [hmore, LabelTable.moved, LabelTable.moved, List.map_append, List.append_assoc]
        cases statement.label <;> rfl
      · have hm : (name, address) ∈ more := by
          rw [hmore]
          exact List.mem_append_right _ (List.mem_map_of_mem (Option.mem_toList.2 hn))
        have hn' := hb _ (hkept.subset hm)
        rw [LabelTable.address?_append hn', LabelTable.address?_moved, hfree name hn]
        rfl
    refine ofLines_cons_eq_ok_iff.2 ⟨statement, _, hs, hd', ?_⟩
    have hnumber : number + numbers + 1 = number + 1 + numbers := by omega
    have haddress : address + distance + 4 = address + 4 + distance := by
      rw [BitVec.add_assoc, BitVec.add_comm distance, BitVec.add_assoc]
    rw [hnumber, haddress]
    rcases hrest with ⟨hn, ha⟩ | ⟨hn, after, ha, rfl⟩
    · exact .inl ⟨hn, ih ha hb⟩
    · exact .inr ⟨hn, _, ih ha hb, rfl⟩

/-- A label of a source stands at an instruction or behind the last. -/
theorem address_of_mem_labels {number : Nat} {address : Word} {labels : LabelTable}
    {lines : List (List Char)} {placement : Placement}
    (h : ofLines number address labels lines = .ok placement) {entry : String × Word}
    (he : entry ∈ placement.labels) :
    entry ∈ labels ∨ ∃ place ≤ placement.lines.length,
      entry.2 = address + Program.addressOf place := by
  induction lines generalizing number address labels placement with
  | nil =>
    obtain rfl := Except.ok.inj h
    exact .inl he
  | cons line rest ih =>
    obtain ⟨statement, more, -, hd, hrest⟩ := ofLines_cons_eq_ok_iff.1 h
    have hmore := (Statement.define_eq_ok_iff.1 hd).1
    have hnew : entry ∈ more → entry ∈ labels ∨ ∃ place ≤ placement.lines.length,
        entry.2 = address + Program.addressOf place := by
      intro hm
      rw [hmore] at hm
      rcases List.mem_append.1 hm with hm | hm
      · exact .inl hm
      · obtain ⟨name, -, rfl⟩ := List.mem_map.1 hm
        exact .inr ⟨0, Nat.zero_le _, (BitVec.add_zero address).symm⟩
    rcases hrest with ⟨-, ha⟩ | ⟨-, after, ha, rfl⟩
    · rcases ih ha he with hm | hplace
      · exact hnew hm
      · exact .inr hplace
    · rcases ih ha he with hm | ⟨place, hle, hplace⟩
      · exact hnew hm
      · refine .inr ⟨place + 1, Nat.succ_le_succ hle, ?_⟩
        rw [hplace, BitVec.add_assoc, Program.addressOf_succ]

/-- Two sources with a newline between them are placed one behind the other, if none of the labels
of the second is among those of the first. -/
theorem ofSource_join {first second : String} {front back : Placement}
    (hf : ofSource first = .ok front) (hb : ofSource second = .ok back)
    (hd : ∀ entry ∈ back.labels, front.labels.address? entry.1 = none) :
    ∃ numbers, ofSource (first ++ "\n" ++ second) =
      .ok ⟨front.lines ++
          back.lines.map (·.moved numbers (Program.addressOf front.lines.length)),
        front.labels ++ back.labels.moved (Program.addressOf front.lines.length)⟩ := by
  have hseam : (first ++ "\n" ++ second).toList = first.toList ++ '\n' :: second.toList := by
    simp only [String.toList_append, List.append_assoc]
    rfl
  rw [ofSource_eq] at hf hb ⊢
  rw [hseam, Text.pieces_append_cons rfl]
  generalize Text.pieces (· == '\n') first.toList = pieces at hf
  have hmoved := ofLines_moved hb hd pieces.length (Program.addressOf front.lines.length)
  have hnil : front.labels ++ LabelTable.moved [] (Program.addressOf front.lines.length) =
      front.labels := List.append_nil _
  rw [hnil] at hmoved
  exact ⟨pieces.length, ofLines_append hf hmoved⟩

end Placement

namespace Site

/-- What stands for an integer still does when labels are added. -/
theorem Denotes.append {address : Word} {labels : LabelTable} {token : String} {value : Int}
    (h : Denotes ⟨address, labels⟩ token value) (more : LabelTable) :
    Denotes ⟨address, labels ++ more⟩ token value := by
  rcases h with hv | ⟨hn, target, ht, hv⟩
  · exact .inl hv
  · exact .inr ⟨hn, target, LabelTable.address?_append_of_some ht more, hv⟩

/-- What stands for an integer still does when the instruction and its labels move together behind
other labels, as long as the addresses do not wrap. -/
theorem Denotes.moved {address distance : Word} {labels before : LabelTable} {token : String}
    {value : Int} (h : Denotes ⟨address, labels⟩ token value)
    (hb : ∀ entry ∈ labels, before.address? entry.1 = none)
    (ha : address.toNat + distance.toNat < 4294967296)
    (hl : ∀ entry ∈ labels, entry.2.toNat + distance.toNat < 4294967296) :
    Denotes ⟨address + distance, before ++ labels.moved distance⟩ token value := by
  rcases h with hv | ⟨hn, target, ht, hv⟩
  · exact .inl hv
  · have hm := LabelTable.mem_of_address? ht
    have hlookup : LabelTable.address? (before ++ labels.moved distance) token =
        some (target + distance) := by
      rw [LabelTable.address?_append (hb _ hm), LabelTable.address?_moved, ht, Option.map_some]
    have haddress : (address + distance).toNat = address.toNat + distance.toNat :=
      BitVec.toNat_add_of_lt ha
    have htarget : (target + distance).toNat = target.toNat + distance.toNat :=
      BitVec.toNat_add_of_lt (hl _ hm)
    refine .inr ⟨hn, _, hlookup, ?_⟩
    dsimp only at hv ⊢
    omega

/-- Tokens make the same word at every site where what they stand for is the same. -/
theorem encode_word {site other : Site}
    (hd : ∀ token value, site.Denotes token value → other.Denotes token value)
    {tokens : List String} {encoded : Encoded} (h : site.encode tokens = .ok encoded) :
    ∃ again, other.encode tokens = .ok again ∧ again.word = encoded.word := by
  obtain ⟨first, operands, op, fields, word, rfl, hn, hf, hw, rfl⟩ := encode_eq_ok_iff.1 h
  obtain ⟨hfills, hstart⟩ := fields_eq_ok_iff.1 hf
  have hfills' : List.Forall₂ (other.Fills fields) op.slots operands := by
    refine hfills.imp fun slot token hs => ?_
    cases slot with
    | rd | rs1 | rs2 => exact hs
    | imm => exact hd token fields.imm hs
  have hf' := fields_eq_ok_iff.2 ⟨hfills', hstart⟩
  exact ⟨_, encode_eq_ok_iff.2 ⟨first, operands, op, fields, word, rfl, hn, hf', hw, rfl⟩, rfl⟩

end Site

namespace PlacedLine

/-- A line gives its word also when labels are added. -/
theorem Gives.append {labels : LabelTable} {line : PlacedLine} {word : Word}
    (h : line.Gives labels word) (more : LabelTable) : line.Gives (labels ++ more) word := by
  obtain ⟨encoded, he, rfl⟩ := h
  exact Site.encode_word (fun token value hd => hd.append more) he

/-- A line gives its word also when it moves together with its labels behind other labels, as long
as the addresses do not wrap. -/
theorem Gives.moved {labels before : LabelTable} {line : PlacedLine} {word : Word}
    (h : line.Gives labels word) (numbers : Nat) {distance : Word}
    (hb : ∀ entry ∈ labels, before.address? entry.1 = none)
    (ha : line.address.toNat + distance.toNat < 4294967296)
    (hl : ∀ entry ∈ labels, entry.2.toNat + distance.toNat < 4294967296) :
    (line.moved numbers distance).Gives (before ++ labels.moved distance) word := by
  obtain ⟨encoded, he, rfl⟩ := h
  exact Site.encode_word (fun token value hd => hd.moved hb ha hl) he

end PlacedLine

/-- There is room for a source behind so many instructions, if its own and they are fewer than there
are addresses. -/
theorem Placement.room_of_ofSource {source : String} {placement : Placement}
    (h : ofSource source = .ok placement) {count : Nat}
    (hn : count + placement.lines.length < 1073741824) :
    (∀ line ∈ placement.lines,
        line.address.toNat + (Program.addressOf count).toNat < 4294967296) ∧
      ∀ entry ∈ placement.labels,
        entry.2.toNat + (Program.addressOf count).toNat < 4294967296 := by
  have hcount : (Program.addressOf count).toNat = 4 * count :=
    Program.toNat_addressOf (by omega)
  have hroom : ∀ place ≤ placement.lines.length,
      (Program.addressOf place).toNat + (Program.addressOf count).toNat < 4294967296 := by
    intro place hp
    have hplace : (Program.addressOf place).toNat = 4 * place :=
      Program.toNat_addressOf (by omega)
    omega
  constructor
  · intro line hl
    obtain ⟨place, hplace⟩ := List.mem_iff_getElem?.1 hl
    obtain ⟨hlt, -⟩ := List.getElem?_eq_some_iff.1 hplace
    rw [address_of_ofSource h hplace]
    exact hroom place (Nat.le_of_lt hlt)
  · intro entry he
    rcases address_of_mem_labels h he with hm | ⟨place, hp, haddress⟩
    · cases hm
    · have hentry : entry.2 = Program.addressOf place := haddress.trans (BitVec.zero_add _)
      rw [hentry]
      exact hroom place hp

/-- A name of one of two tables without a common name is not defined by the other. -/
theorem LabelTable.address?_eq_none_of_disjoint {labels others : LabelTable}
    (h : List.Disjoint (labels.map Prod.fst) (others.map Prod.fst)) :
    ∀ entry ∈ others, labels.address? entry.1 = none := by
  intro entry he
  cases hl : labels.address? entry.1 with
  | none => rfl
  | some address =>
    have hmem : (entry.1, address).1 ∈ labels.map Prod.fst :=
      List.mem_map_of_mem (mem_of_address? hl)
    exact absurd (List.mem_map_of_mem he) (h hmem)

namespace Assembly

/-- Two assemblies, of which the second stands behind the first. -/
def followedBy (front back : Assembly) : Assembly where
  words := front.words ++ back.words
  labels := front.labels ++ back.labels.moved (Program.addressOf front.words.length)

/-- Two accepted sources without a common label and with room for the instructions of both are
accepted with a newline between them. The words are those of the first and then those of the
second, and the labels of the second are moved by four for every word of the first. -/
theorem ofSource_append {first second : String} {front back : Assembly}
    (hf : ofSource first = .ok front) (hb : ofSource second = .ok back)
    (hd : List.Disjoint (front.labels.map Prod.fst) (back.labels.map Prod.fst))
    (hn : front.words.length + back.words.length < 1073741824) :
    ofSource (first ++ "\n" ++ second) = .ok (front.followedBy back) ∧
      ∀ entry ∈ back.labels, (entry.2 + Program.addressOf front.words.length).toNat =
        entry.2.toNat + 4 * front.words.length := by
  obtain ⟨frontPlaced, hpf, hgf, hvf, hlf⟩ := ofSource_eq_ok_iff.1 hf
  obtain ⟨backPlaced, hpb, hgb, -, hlb⟩ := ofSource_eq_ok_iff.1 hb
  have hfront : frontPlaced.lines.length = front.words.length := hgf.length_eq
  have hback : backPlaced.lines.length = back.words.length := hgb.length_eq
  have hfree : ∀ entry ∈ backPlaced.labels, frontPlaced.labels.address? entry.1 = none := by
    rw [← hlf, ← hlb]
    exact LabelTable.address?_eq_none_of_disjoint hd
  obtain ⟨hlines, hlabels⟩ := Placement.room_of_ofSource hpb
    (by omega : front.words.length + backPlaced.lines.length < 1073741824)
  obtain ⟨numbers, hplaced⟩ := Placement.ofSource_join hpf hpb hfree
  rw [hfront] at hplaced
  constructor
  · refine ofSource_eq_ok_iff.2 ⟨_, hplaced, ?_, List.mem_append_left _ hvf, ?_⟩
    · refine List.rel_append (hgf.imp fun line word hg => hg.append _) ?_
      refine List.forall₂_map_left_iff.2 (List.forall₂_iff_zip.2 ⟨hgb.length_eq, fun hm => ?_⟩)
      have hline := hlines _ (List.of_mem_zip hm).1
      exact ((List.forall₂_iff_zip.1 hgb).2 hm).moved numbers hfree hline hlabels
    · rw [followedBy, hlf, hlb]
  · intro entry he
    have hcount : (Program.addressOf front.words.length).toNat = 4 * front.words.length :=
      Program.toNat_addressOf (by omega)
    rw [BitVec.toNat_add_of_lt (hlabels entry (hlb ▸ he)), hcount]

/-- The source of a call to what follows it; its last line has no newline. -/
def callNext : String := "jal ra, next\nbeq zero, zero, 0 # a: b\nnext:"

/-- The source of a loop, with other line endings. -/
def countDown : String :=
  "; loop\r\nloop: addi t0, t0, -1\r\nbne t0, zero, loop\r\nend: beq zero, zero, end"

/-- A loop behind a call keeps its words, and the label behind the call is that of the loop. -/
theorem ofSource_append_countDown :
    ofSource callNext = .ok ⟨[0x008000EF, 0x00000063], [("next", 8)]⟩ ∧
      ofSource countDown =
        .ok ⟨[0xFFF28293, 0xFE029EE3, 0x00000063], [("loop", 0), ("end", 8)]⟩ ∧
      ofSource (callNext ++ "\n" ++ countDown) =
        .ok ⟨[0x008000EF, 0x00000063, 0xFFF28293, 0xFE029EE3, 0x00000063],
          [("next", 8), ("loop", 8), ("end", 16)]⟩ := by
  have hf : ofSource callNext = .ok ⟨[0x008000EF, 0x00000063], [("next", 8)]⟩ := by
    decide +kernel
  have hb : ofSource countDown =
      .ok ⟨[0xFFF28293, 0xFE029EE3, 0x00000063], [("loop", 0), ("end", 8)]⟩ := by
    decide +kernel
  have hd : List.Disjoint ["next"] ["loop", "end"] :=
    List.singleton_disjoint.2 (by decide)
  exact ⟨hf, hb, (ofSource_append hf hb hd (by decide)).1⟩

end Assembly

end MiniRisc
