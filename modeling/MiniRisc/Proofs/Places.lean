import Mathlib.Data.List.Induction
import MiniRisc.Proofs.Reports

/-!
# The places of instructions and labels

A source can be placed exactly if every line with a colon has one colon behind one name, and no name
is on two lines. The instruction of a line then stands at four times the number of instructions on
the lines before it, and the name of a line names that address. Otherwise the first line that
breaks the rule is reported.
-/

namespace MiniRisc

/-- Every line with a colon has one colon, behind a name, and no name is on two lines. -/
structure WellLabelled (lines : List (List Char)) : Prop where
  /-- A line with a colon is a name, a colon and a rest without a colon. -/
  single : ∀ line ∈ lines, ':' ∈ significantPart line → ∃ front rest,
    significantPart line = front ++ ':' :: rest ∧ ':' ∉ front ∧ ':' ∉ rest ∧
      IsLabelName (String.ofList (Text.trim front))
  /-- The names of the lines are different. -/
  distinct : (lines.filterMap labelOf?).Nodup

/-- The number of lines with an instruction. -/
def instructionCount (lines : List (List Char)) : Nat :=
  lines.countP fun line => !(instructionOf line).isEmpty

/-- A placement has the instructions of lines at consecutive multiples of four, and their labels at
the addresses of the next instructions. -/
structure Places (lines : List (List Char)) (placement : Placement) : Prop where
  /-- The instruction in a place is that of the line with as many instructions before it. -/
  instruction : ∀ place placed, placement.lines[place]? = some placed ↔
    ∃ before line after, lines = before ++ line :: after ∧ instructionOf line ≠ [] ∧
      place = instructionCount before ∧
      placed = ⟨before.length + 1, BitVec.ofNat 32 (4 * place), tokensOf (instructionOf line)⟩
  /-- The labels are those of the lines. -/
  names : placement.labels.map Prod.fst = lines.filterMap labelOf?
  /-- A label has the address behind the instructions on the lines before its own. -/
  address : ∀ name address, placement.labels.address? name = some address ↔
    ∃ before line after, lines = before ++ line :: after ∧ labelOf? line = some name ∧
      address = BitVec.ofNat 32 (4 * instructionCount before)

section

variable {before lines : List (List Char)} {line : List Char}

/-- What can be said of an element of a list and of those before it, with one more at the end. -/
theorem exists_split_append_singleton_iff {α : Type} {P : List α → α → Prop} {before : List α}
    {last : α} :
    (∃ front x back, before ++ [last] = front ++ x :: back ∧ P front x) ↔
      (∃ front x back, before = front ++ x :: back ∧ P front x) ∨ P before last := by
  constructor
  · rintro ⟨front, x, back, hs, hp⟩
    rcases append_singleton_eq_iff.1 hs with ⟨more, -, hbefore⟩ | ⟨-, rfl, rfl⟩
    · exact .inl ⟨front, x, more, hbefore, hp⟩
    · exact .inr hp
  · rintro (⟨front, x, back, hs, hp⟩ | hp)
    · exact ⟨front, x, back ++ [last], append_singleton_eq_iff.2 (.inl ⟨back, rfl, hs⟩), hp⟩
    · exact ⟨before, last, [], rfl, hp⟩

/-! ### The rules for labels -/

/-- A line has no bad label exactly if its colon, if it has one, is the only one and stands behind a
name. -/
theorem not_hasBadLabel_iff :
    ¬ HasBadLabel line ↔ (':' ∈ significantPart line → ∃ front rest,
      significantPart line = front ++ ':' :: rest ∧ ':' ∉ front ∧ ':' ∉ rest ∧
        IsLabelName (String.ofList (Text.trim front))) := by
  by_cases hm : ':' ∈ significantPart line
  case neg => exact iff_of_true (line_of_no_colon hm).2.2 fun h => absurd h hm
  case pos =>
    constructor
    · intro h _
      obtain ⟨front, rest, hs, hf⟩ := List.eq_append_cons_of_mem hm
      obtain ⟨hname, hrest⟩ := not_not.1 (mt (line_of_colon hs hf).2.2.2 h)
      exact ⟨front, rest, hs, hf, hrest, hname⟩
    · intro h hb
      obtain ⟨front, rest, hs, hf, hrest, hname⟩ := h hm
      exact (line_of_colon hs hf).2.2.1 hb ⟨hname, hrest⟩

/-- A line breaks no rule exactly if it has no bad label and its name is new. -/
theorem forall_not_breaks_iff :
    (∀ defect, ¬ Breaks before line defect) ↔
      ¬ HasBadLabel line ∧ ∀ name ∈ labelOf? line, name ∉ before.filterMap labelOf? := by
  constructor
  · intro h
    have hbad : ¬ HasBadLabel line := fun hbad => h _ (.badLabel hbad)
    refine ⟨hbad, fun name hn hm => ?_⟩
    obtain ⟨other, ho, hs⟩ := List.mem_filterMap.1 hm
    exact h _ (.duplicateLabel hbad hn ho hs)
  · rintro ⟨hbad, hnew⟩ defect hbreaks
    cases hbreaks with
    | badLabel hb => exact hbad hb
    | duplicateLabel _ hn ho hs => exact hnew _ hn (List.mem_filterMap.2 ⟨_, ho, hs⟩)

/-- Lines are well labelled with one more exactly if they are and the line breaks no rule. -/
theorem wellLabelled_append_singleton_iff :
    WellLabelled (before ++ [line]) ↔
      WellLabelled before ∧ ∀ defect, ¬ Breaks before line defect := by
  have hnodup : ((before ++ [line]).filterMap labelOf?).Nodup ↔
      (before.filterMap labelOf?).Nodup ∧
        ∀ name ∈ labelOf? line, name ∉ before.filterMap labelOf? := by
    cases hn : labelOf? line with
    | none => simp [hn]
    | some name =>
      have hlast : [line].filterMap labelOf? = [name] := by rw [List.filterMap_cons, hn]; rfl
      simp only [List.filterMap_append, hlast, List.nodup_append, List.mem_singleton, forall_eq,
        List.nodup_cons, List.not_mem_nil, not_false_eq_true, List.nodup_nil, and_self, true_and,
        Option.mem_def, Option.some.injEq, forall_eq']
      exact and_congr_right fun _ => ⟨fun h hm => h _ hm rfl, fun h other hm he => h (he ▸ hm)⟩
  rw [forall_not_breaks_iff, not_hasBadLabel_iff]
  constructor
  · rintro ⟨hsingle, hdistinct⟩
    obtain ⟨hb, hl⟩ := List.forall_mem_append.1 hsingle
    obtain ⟨hd, hnew⟩ := hnodup.1 hdistinct
    exact ⟨⟨hb, hd⟩, List.forall_mem_singleton.1 hl, hnew⟩
  · rintro ⟨⟨hb, hd⟩, hl, hnew⟩
    exact ⟨List.forall_mem_append.2 ⟨hb, List.forall_mem_singleton.2 hl⟩, hnodup.2 ⟨hd, hnew⟩⟩

/-- Lines are lawful exactly if they are well labelled. -/
theorem lawful_iff_wellLabelled : Lawful lines ↔ WellLabelled lines := by
  induction lines using List.reverseRecOn with
  | nil => exact iff_of_true lawful_nil ⟨List.forall_mem_nil _, List.nodup_nil⟩
  | append_singleton before line ih =>
    rw [lawful_append_singleton_iff, wellLabelled_append_singleton_iff, ih]

/-! ### The places of instructions -/

/-- As many instructions are placed as there are lines with one. -/
theorem length_instructionLines (lines : List (List Char)) :
    (instructionLines lines).length = instructionCount lines := by
  induction lines using List.reverseRecOn with
  | nil => rfl
  | append_singleton before line ih =>
    rw [instructionLines_append_singleton, List.length_append, ih, instructionCount,
      instructionCount, List.countP_append]
    cases he : (instructionOf line).isEmpty <;> simp [he]

/-- The instruction in a place is that of the line with as many instructions before it. -/
theorem getElem?_instructionLines_iff (lines : List (List Char)) (place : Nat)
    (placed : PlacedLine) :
    (instructionLines lines)[place]? = some placed ↔
      ∃ before line after, lines = before ++ line :: after ∧ instructionOf line ≠ [] ∧
        place = instructionCount before ∧
        placed =
          ⟨before.length + 1, BitVec.ofNat 32 (4 * place), tokensOf (instructionOf line)⟩ := by
  induction lines using List.reverseRecOn with
  | nil => simp [instructionLines]
  | append_singleton before line ih =>
    rw [exists_split_append_singleton_iff, ← ih, instructionLines_append_singleton,
      ← length_instructionLines]
    by_cases hp : place < (instructionLines before).length
    case pos =>
      rw [List.getElem?_append_left hp]
      exact (or_iff_left fun h => Nat.ne_of_lt hp h.2.1).symm
    case neg =>
      have hle := Nat.le_of_not_lt hp
      have hnone : (instructionLines before)[place]? ≠ some placed := by
        rw [List.getElem?_eq_none hle]
        exact (Option.some_ne_none placed).symm
      rw [List.getElem?_append_right hle, or_iff_right hnone]
      cases he : instructionOf line with
      | nil => simp
      | cons c rest =>
        rw [List.isEmpty_cons, if_neg Bool.false_ne_true, List.getElem?_singleton]
        split
        case isTrue h =>
          obtain rfl : place = (instructionLines before).length := by omega
          simp [Program.addressOf, eq_comm]
        case isFalse h =>
          have hne : place ≠ (instructionLines before).length := by omega
          simp [hne]

/-! ### The addresses of labels -/

/-- The labels are those of the lines. -/
theorem map_fst_definitions (lines : List (List Char)) :
    (definitions lines).map Prod.fst = lines.filterMap labelOf? := by
  induction lines using List.reverseRecOn with
  | nil => rfl
  | append_singleton before line ih =>
    rw [definitions_append_singleton, List.map_append, ih, List.filterMap_append]
    cases hn : labelOf? line <;> simp [hn]

/-- A name has an address in a table with one new label exactly if it has it in the table or is the
label. -/
theorem LabelTable.address?_append_label_iff {labels : LabelTable} {label : Option String}
    (h : ∀ name ∈ label, labels.address? name = none) (name : String) (target address : Word) :
    LabelTable.address? (labels ++ label.toList.map (·, target)) name = some address ↔
      labels.address? name = some address ∨ label = some name ∧ address = target := by
  cases hn : labels.address? name with
  | some known =>
    have hother : label ≠ some name := fun hl => by rw [h name hl] at hn; cases hn
    rw [LabelTable.address?_append_of_some hn]
    exact (or_iff_left fun hl => hother hl.1).symm
  | none =>
    rw [LabelTable.address?_append hn, or_iff_right (Option.some_ne_none address).symm]
    cases label with
    | none => simp [LabelTable.address?]
    | some other =>
      simp only [LabelTable.address?, Option.toList_some, List.map_cons, List.map_nil,
        List.lookup_cons, List.lookup_nil, Option.some.injEq]
      cases hs : name == other with
      | true => simp [beq_iff_eq.1 hs, eq_comm]
      | false => simp [Ne.symm (beq_eq_false_iff_ne.1 hs)]

/-- A label has the address behind the instructions on the lines before its own. -/
theorem address?_definitions_iff {lines : List (List Char)} (h : WellLabelled lines)
    (name : String) (address : Word) :
    (definitions lines).address? name = some address ↔
      ∃ before line after, lines = before ++ line :: after ∧ labelOf? line = some name ∧
        address = BitVec.ofNat 32 (4 * instructionCount before) := by
  induction lines using List.reverseRecOn with
  | nil => simp [definitions, LabelTable.address?]
  | append_singleton before line ih =>
    obtain ⟨hb, hl⟩ := wellLabelled_append_singleton_iff.1 h
    have hnew : ∀ name ∈ labelOf? line, (definitions before).address? name = none :=
      fun name hn => address?_definitions_eq_none_iff.2 fun other ho hs =>
        (forall_not_breaks_iff.1 hl).2 name hn (List.mem_filterMap.2 ⟨other, ho, hs⟩)
    rw [exists_split_append_singleton_iff, ← ih hb, definitions_append_singleton,
      LabelTable.address?_append_label_iff hnew, length_instructionLines]
    rfl

end

namespace Placement

/-- A source can be placed exactly if its lines are well labelled. Its instructions and labels then
have the places that its lines give them, and otherwise the first line that breaks a rule for labels
is reported. -/
theorem ofSource_by_lines (source : String) :
    ((∃ placement, ofSource source = .ok placement) ↔ WellLabelled (Text.lines source.toList)) ∧
      (∀ placement, ofSource source = .ok placement →
        Places (Text.lines source.toList) placement) ∧
      ∀ error, ofSource source = .error error ↔ ∃ before line after defect,
        Text.lines source.toList = before ++ line :: after ∧ WellLabelled before ∧
          Breaks before line defect ∧
          error = .atLine (before.length + 1) (.malformed defect) := by
  simp only [← lawful_iff_wellLabelled]
  rcases ofSource_cases source with ⟨before, line, after, defect, hl, hb, hd, hs⟩ | ⟨hl, hs⟩
  case inl =>
    refine ⟨iff_of_false ?_ fun h => h before line after hl defect hd, ?_, fun error => ?_⟩
    · rintro ⟨placement, hp⟩
      cases hs.symm.trans hp
    · intro placement hp
      cases hs.symm.trans hp
    · rw [hs]
      constructor
      · rintro h
        exact ⟨before, line, after, defect, hl, hb, hd, (Except.error.inj h).symm⟩
      · rintro ⟨before', line', after', defect', hl', hb', hd', rfl⟩
        obtain ⟨rfl, -, rfl⟩ := hd.first_unique hd' hb hb' (hl.symm.trans hl')
        rfl
  case inr =>
    refine ⟨iff_of_true ⟨_, hs⟩ hl, fun placement hp => ?_, fun error => iff_of_false ?_ ?_⟩
    · obtain rfl := Except.ok.inj (hs.symm.trans hp)
      exact ⟨getElem?_instructionLines_iff _, map_fst_definitions _,
        address?_definitions_iff (lawful_iff_wellLabelled.1 hl)⟩
    · intro h
      cases hs.symm.trans h
    · rintro ⟨before, line, after, defect, hs', -, hd, -⟩
      exact hl before line after hs' defect hd

/-- Colons in comments, labels before an instruction and a label behind the last one. -/
theorem ofSource_by_lines_shared :
    ∃ placement, ofSource "start: # not: here\n loop:\tmov t0, t1 ; nor: here\n\nrst\nend:" =
        .ok placement ∧
      Places (Text.lines
        "start: # not: here\n loop:\tmov t0, t1 ; nor: here\n\nrst\nend:".toList) placement ∧
      placement.labels = [("start", 0), ("loop", 0), ("end", 8)] := by
  have h : ofSource "start: # not: here\n loop:\tmov t0, t1 ; nor: here\n\nrst\nend:" =
      .ok ⟨[⟨2, 0, ["mov", "t0", "t1"]⟩, ⟨4, 4, ["rst"]⟩],
        [("start", 0), ("loop", 0), ("end", 8)]⟩ := by
    decide +kernel
  exact ⟨_, h, (ofSource_by_lines _).2.1 _ h, rfl⟩

end Placement

end MiniRisc
