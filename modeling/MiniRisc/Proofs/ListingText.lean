import Mathlib.Data.List.Forall2
import MiniRisc.Listing
import MiniRisc.Proofs.AddressNames
import MiniRisc.Proofs.ProgramText

/-!
# The text of a listing as a source

Every word of a listing has a row that begins with its address, and perhaps a row before it with
the name of the address. Read as a source, the first row defines the name and the second defines
the short numeral of the address and holds the instruction. So the labels are the names of the
addresses, each of which names its own address, and the instructions stand where they were listed.
-/

namespace MiniRisc

/-- The row that defines the name of an address. -/
def Word.definition (address : Word) : List Char := address.targetName.toList ++ [':']

namespace ListingLine

/-- The row that shows the word of a line, with the bits if they are wanted. -/
def row (showBits : Bool) (line : ListingLine) : List Char :=
  line.address.shortHex.toList ++ ':' :: ' ' ::
    ((if showBits then line.word.binaryDigits ++ [' ', ' '] else []) ++ line.text.toList)

/-- The rows of text that a line of a listing has. -/
def shownRows (targets : List Word) (showBits : Bool) (line : ListingLine) : List (List Char) :=
  (if targets.contains line.address then [line.address.definition] else []) ++ [line.row showBits]

/-- The labels that the rows of a line define. -/
def labels (targets : List Word) (line : ListingLine) : LabelTable :=
  (if targets.contains line.address then [(line.address.targetName, line.address)] else []) ++
    [(line.address.shortHex, line.address)]

/-- A label of a line has the address of the line, and is one of the two names of it. -/
theorem of_mem_labels {targets : List Word} {line : ListingLine} {name : String} {address : Word}
    (h : (name, address) ∈ line.labels targets) :
    address = line.address ∧ (name = address.targetName ∨ name = address.shortHex) := by
  unfold labels at h
  rcases List.mem_append.1 h with h | h
  · split at h
    case isTrue =>
      obtain ⟨rfl, rfl⟩ := Prod.mk.inj (List.mem_singleton.1 h)
      exact ⟨rfl, .inl rfl⟩
    case isFalse => cases h
  · obtain ⟨rfl, rfl⟩ := Prod.mk.inj (List.mem_singleton.1 h)
    exact ⟨rfl, .inr rfl⟩

/-- No name is a label of two addresses. -/
theorem address_unique {targets : List Word} {first second : ListingLine} {name : String}
    {address other : Word} (hf : (name, address) ∈ first.labels targets)
    (hs : (name, other) ∈ second.labels targets) : address = other := by
  obtain ⟨-, rfl | rfl⟩ := of_mem_labels hf <;> obtain ⟨-, h | h⟩ := of_mem_labels hs
  · exact Word.targetName_injective h
  · exact absurd h.symm (Word.shortHex_ne_targetName other address)
  · exact absurd h (Word.shortHex_ne_targetName address other)
  · exact Word.shortHex_injective h

/-- The names of one address stay free when those of another are defined. -/
theorem free_append {targets : List Word} {line other : ListingLine}
    (hne : line.address ≠ other.address) {labels : LabelTable}
    (h : ∀ entry ∈ other.labels targets, labels.address? entry.1 = none) :
    ∀ entry ∈ other.labels targets,
      LabelTable.address? (labels ++ line.labels targets) entry.1 = none := by
  intro entry he
  rw [LabelTable.address?_append (h entry he), LabelTable.address?, List.lookup_eq_none_iff]
  intro known hk
  refine bne_iff_ne.2 fun hs => hne ?_
  have hsame : (known.1, entry.2) ∈ other.labels targets := hs ▸ he
  have hknown := (of_mem_labels hk).1
  have hentry := (of_mem_labels he).1
  rw [← hknown, ← hentry]
  exact address_unique hk hsame

/-- A row is the definition of the address of its line, or the row of its word. -/
theorem of_mem_shownRows {targets : List Word} {showBits : Bool} {line : ListingLine}
    {row : List Char} (h : row ∈ line.shownRows targets showBits) :
    (row = line.address.definition ∧ line.address ∈ targets) ∨ row = line.row showBits := by
  rcases List.mem_append.1 h with h | h
  · split at h
    case isTrue hm => exact .inl ⟨List.mem_singleton.1 h, List.contains_iff_mem.1 hm⟩
    case isFalse => cases h
  · exact .inr (List.mem_singleton.1 h)

/-- The rows of a line have no character that is neither one of a written instruction nor a colon,
unless the text of the line has it. -/
theorem not_mem_shownRows {targets : List Word} {showBits : Bool} {line : ListingLine} {c : Char}
    (hw : Text.isWritten c = false) (hc : c ≠ ':') (ht : c ∉ line.text.toList) {row : List Char}
    (hr : row ∈ line.shownRows targets showBits) : c ∉ row := by
  have hsolid : ∀ {text : List Char}, Text.Solid text → c ∉ text := fun hs hm =>
    Text.ne_of_isWritten (Text.isWritten_of_isSolid (hs.2 c hm)) hw rfl
  have hspace : c ≠ ' ' := (Text.ne_of_isWritten (by decide) hw).symm
  have hname := hsolid (Word.solid_targetName line.address)
  have hshort := hsolid (Word.solid_shortHex line.address)
  have hbits := hsolid line.word.isNumeral_binaryDigits.solid
  rcases of_mem_shownRows hr with ⟨rfl, -⟩ | rfl
  · simp [Word.definition, hname, hc]
  · cases showBits <;> simp [row, hshort, hbits, hc, hspace, ht]

end ListingLine

namespace Listing

/-- The text of a listing has the rows of its lines, with or without the bits. -/
theorem lines_text_shown {listing : Listing}
    (h : ∀ line ∈ listing.lines, '\n' ∉ line.text.toList ∧ '\r' ∉ line.text.toList)
    (showBits : Bool) : Text.lines (listing.text showBits).toList =
      listing.lines.flatMap (ListingLine.shownRows listing.targets showBits) := by
  have hline : ∀ line : ListingLine, (listing.lineText showBits line).toList =
      (line.shownRows listing.targets showBits).flatMap (· ++ ['\n']) := by
    intro line
    have hc : ":\n".toList = [':', '\n'] := rfl
    have hs : ": ".toList = [':', ' '] := rfl
    have hb : "  ".toList = [' ', ' '] := rfl
    have hn : "\n".toList = ['\n'] := rfl
    simp only [lineText, ListingLine.shownRows, ListingLine.row, Word.definition, Word.binary]
    split <;> split <;> simp [hc, hs, hb, hn]
  have htext : (listing.text showBits).toList =
      (listing.lines.flatMap (ListingLine.shownRows listing.targets showBits)).flatMap
        (· ++ ['\n']) := by
    rw [text, String.toList_join, List.flatMap_map, List.flatMap_assoc]
    exact List.flatMap_congr fun line _ => hline line
  rw [htext, Text.lines_flatMap]
  intro row hr
  obtain ⟨line, hl, hr⟩ := List.mem_flatMap.1 hr
  exact ⟨ListingLine.not_mem_shownRows (by decide) (by decide) (h line hl).1 hr,
    ListingLine.not_mem_shownRows (by decide) (by decide) (h line hl).2 hr⟩

end Listing

namespace Placement

/-- A line that defines a label and holds no instruction. -/
theorem ofLines_label {line : List Char} {name : String}
    (h : Statement.ofLine line = .ok { label := some name, body := [] }) {labels : LabelTable}
    (hn : labels.address? name = none) (number : Nat) (address : Word)
    (rest : List (List Char)) :
    ofLines number address labels (line :: rest) =
      ofLines (number + 1) address (labels ++ [(name, address)]) rest := by
  simp only [ofLines, h, Statement.define, LabelTable.define?, hn, List.isEmpty_nil, if_true]

/-- A line that defines a label and holds an instruction. -/
theorem ofLines_instruction {line body : List Char} {name : String}
    (h : Statement.ofLine line = .ok { label := some name, body }) (hb : body ≠ [])
    {labels : LabelTable} (hn : labels.address? name = none) (number : Nat) (address : Word)
    (rest : List (List Char)) :
    ofLines number address labels (line :: rest) =
      (ofLines (number + 1) (address + 4) (labels ++ [(name, address)]) rest).map
        fun placement =>
          { placement with lines := ⟨number, address, tokensOf body⟩ :: placement.lines } := by
  have hempty : body.isEmpty = false := List.isEmpty_eq_false_iff.2 hb
  simp only [ofLines, h, Statement.define, LabelTable.define?, hn, hempty, Bool.false_eq_true,
    if_false]

/-- The rows of one line of a listing without the bits define its labels and place its
instruction. -/
theorem ofLines_rows {targets : List Word} {line : ListingLine}
    (ht : Text.Neat line.text.toList) {labels : LabelTable}
    (hn : ∀ entry ∈ line.labels targets, labels.address? entry.1 = none) (number : Nat)
    (rest : List (List Char)) :
    ∃ first next, ofLines number line.address labels (line.shownRows targets false ++ rest) =
      (ofLines next (line.address + 4) (labels ++ line.labels targets) rest).map
        fun placement => { placement with
          lines := ⟨first, line.address, tokensOfText line.text⟩ :: placement.lines } := by
  have hname := Statement.ofLine_label (Word.solid_targetName line.address)
  have haddress := Statement.ofLine_instruction (Word.solid_shortHex line.address) ht
  have hbody : line.text.toList ≠ [] := by
    obtain ⟨c, text, hc, -⟩ := ht.first
    rw [hc]
    exact List.cons_ne_nil c text
  rw [String.ofList_toList] at hname haddress
  have hrow : line.row false = line.address.shortHex.toList ++ ':' :: ' ' :: line.text.toList := rfl
  unfold ListingLine.shownRows ListingLine.labels at *
  rw [hrow, Word.definition]
  split at hn
  case isTrue hm =>
    have hfirst := hn _ List.mem_cons_self
    have hsecond := hn _ (List.mem_cons_of_mem _ List.mem_cons_self)
    have hother : LabelTable.address? (labels ++ [(line.address.targetName, line.address)])
        line.address.shortHex = none := by
      have hne := beq_eq_false_iff_ne.2 (Word.shortHex_ne_targetName line.address line.address)
      rw [LabelTable.address?_append hsecond, LabelTable.address?, List.lookup_cons, hne,
        List.lookup_nil]
    refine ⟨number + 1, number + 2, ?_⟩
    rw [if_pos hm, if_pos hm, List.append_assoc, List.singleton_append, List.singleton_append,
      ofLines_label hname hfirst, ofLines_instruction haddress hbody hother, List.append_assoc]
    rfl
  case isFalse hm =>
    have hfirst := hn _ List.mem_cons_self
    refine ⟨number, number + 1, ?_⟩
    rw [if_neg hm, if_neg hm, List.nil_append, List.nil_append, List.singleton_append,
      ofLines_instruction haddress hbody hfirst]
    rfl

/-- The text of a listing is placed with the labels of all its lines, and every instruction stands
at the address where it was listed. -/
theorem ofLines_flatMap_rows {targets : List Word} {lines : List ListingLine} {start : Nat}
    (hc : lines.map (·.address) = (List.range' start lines.length).map Program.addressOf)
    (hd : (lines.map (·.address)).Nodup) (ht : ∀ line ∈ lines, Text.Neat line.text.toList)
    {labels : LabelTable}
    (hn : ∀ line ∈ lines, ∀ entry ∈ line.labels targets, labels.address? entry.1 = none)
    (number : Nat) :
    ∃ placed, ofLines number (Program.addressOf start) labels
          (lines.flatMap (ListingLine.shownRows targets false)) =
        .ok ⟨placed, labels ++ lines.flatMap (ListingLine.labels targets)⟩ ∧
      List.Forall₂ (fun (line : PlacedLine) (listed : ListingLine) =>
        line.address = listed.address ∧ line.tokens = tokensOfText listed.text) placed lines := by
  induction lines generalizing start labels number with
  | nil => exact ⟨[], by simp [ofLines], .nil⟩
  | cons line rest ih =>
    rw [List.length_cons, List.range'_succ, List.map_cons, List.map_cons] at hc
    obtain ⟨ha, hrest⟩ := List.cons.inj hc
    rw [List.map_cons, List.nodup_cons] at hd
    have hfree : ∀ other ∈ rest, ∀ entry ∈ other.labels targets,
        LabelTable.address? (labels ++ line.labels targets) entry.1 = none := by
      intro other ho
      have hne : line.address ≠ other.address := fun he => hd.1 (he ▸ List.mem_map_of_mem ho)
      exact ListingLine.free_append hne (hn other (List.mem_cons_of_mem line ho))
    obtain ⟨first, next, hfirst⟩ := ofLines_rows (ht line List.mem_cons_self)
      (hn line List.mem_cons_self) number (rest.flatMap (ListingLine.shownRows targets false))
    obtain ⟨placed, hplaced, hall⟩ := ih hrest hd.2
      (fun other ho => ht other (List.mem_cons_of_mem line ho)) hfree next
    have hnext : line.address + 4 = Program.addressOf (start + 1) := by
      rw [ha, BitVec.add_comm, Program.addressOf_succ]
    refine ⟨⟨first, line.address, tokensOfText line.text⟩ :: placed, ?_, .cons ⟨rfl, rfl⟩ hall⟩
    rw [List.flatMap_cons, ← ha, hfirst, hnext, hplaced, List.flatMap_cons, List.append_assoc]
    rfl

end Placement

end MiniRisc
