import Mathlib.Data.List.TakeWhile
import MiniRisc.Proofs.LabelNames

/-!
# What is reported about a source

A source has one of four results. If a line breaks a rule for labels, the first such line is
reported, whatever the instructions before it are. Otherwise all labels are known, and the first
instruction that cannot be encoded is reported. Otherwise every instruction has its word, and the
words are the result, or the end of the program is missed.

The rules for labels, the places of the instructions and the table of labels are said here for all
lines at once, without the pass that finds them.
-/

namespace MiniRisc

/-- The name that a line defines: what stands before its first colon. -/
def labelOf? (line : List Char) : Option String :=
  if ':' ∈ significantPart line then
    some (String.ofList (Text.trim ((significantPart line).takeWhile (· != ':'))))
  else none

/-- The instruction of a line: what stands behind its first colon, or all of it. -/
def instructionOf (line : List Char) : List Char :=
  if ':' ∈ significantPart line then
    Text.trim ((significantPart line).dropWhile (· != ':')).tail
  else significantPart line

/-- What stands before the first colon of a line is no name, or there is another colon. -/
def HasBadLabel (line : List Char) : Prop :=
  ∃ front rest, significantPart line = front ++ ':' :: rest ∧ ':' ∉ front ∧
    ¬ (IsLabelName (String.ofList (Text.trim front)) ∧ ':' ∉ rest)

/-- A line that stands behind others breaks a rule for labels. -/
inductive Breaks (before : List (List Char)) (line : List Char) : Defect → Prop
  /-- Its label is a bad one. -/
  | badLabel (hb : HasBadLabel line) :
    Breaks before line (.badLabel (String.ofList (Text.trim line)))
  /-- Its label is that of a line before it. -/
  | duplicateLabel {name : String} {other : List Char} (hb : ¬ HasBadLabel line)
      (hn : labelOf? line = some name) (ho : other ∈ before) (hs : labelOf? other = some name) :
    Breaks before line (.duplicateLabel name)

/-- No line breaks a rule for labels. -/
def Lawful (lines : List (List Char)) : Prop :=
  ∀ before line after, lines = before ++ line :: after → ∀ defect, ¬ Breaks before line defect

/-- The instructions of lines, each with the number of its line, at consecutive multiples of
four. -/
def instructionLines (lines : List (List Char)) : List PlacedLine :=
  ((lines.zipIdx 1).filter fun entry => !(instructionOf entry.1).isEmpty).mapIdx
    fun place entry => ⟨entry.2, Program.addressOf place, tokensOf (instructionOf entry.1)⟩

/-- The labels of lines, each with the address of the next instruction. -/
def definitions (lines : List (List Char)) : LabelTable :=
  lines.zipIdx.filterMap fun entry => (labelOf? entry.1).map
    (·, Program.addressOf (instructionLines (lines.take entry.2)).length)

/-! ### One line -/

/-- A text without colons has nothing behind its first colon. -/
theorem dropWhile_colon_eq_nil_iff {text : List Char} :
    text.dropWhile (· != ':') = [] ↔ ':' ∉ text := by
  rw [List.dropWhile_eq_nil_iff]
  constructor
  · exact fun h hm => absurd (h _ hm) (by decide)
  · exact fun h c hc => bne_iff_ne.2 fun he => h (he ▸ hc)

/-- A text with a colon is cut at the first one. -/
theorem cut_at_colon {front rest : List Char} (hf : ':' ∉ front) :
    (front ++ ':' :: rest).takeWhile (· != ':') = front ∧
      (front ++ ':' :: rest).dropWhile (· != ':') = ':' :: rest := by
  have hall : ∀ c ∈ front, (c != ':') = true := fun c hc => bne_iff_ne.2 fun he => hf (he ▸ hc)
  rw [List.takeWhile_append_of_pos hall, List.dropWhile_append_of_pos hall]
  exact ⟨List.append_nil front, rfl⟩

/-- A line with a colon defines what stands before the first one, has the instruction behind it, and
has a bad label exactly if no name stands before it or another colon behind it. -/
theorem line_of_colon {line front rest : List Char}
    (hs : significantPart line = front ++ ':' :: rest) (hf : ':' ∉ front) :
    labelOf? line = some (String.ofList (Text.trim front)) ∧ instructionOf line = Text.trim rest ∧
      (HasBadLabel line ↔
        ¬ (IsLabelName (String.ofList (Text.trim front)) ∧ ':' ∉ rest)) := by
  obtain ⟨htake, hdrop⟩ := @cut_at_colon front rest hf
  have hm : ':' ∈ front ++ ':' :: rest := List.mem_append_right front List.mem_cons_self
  refine ⟨by rw [labelOf?, hs, if_pos hm, htake], by rw [instructionOf, hs, if_pos hm, hdrop]; rfl,
    ?_, fun hb => ⟨front, rest, hs, hf, hb⟩⟩
  rintro ⟨front', rest', hs', hf', hb⟩
  obtain ⟨htake', hdrop'⟩ := @cut_at_colon front' rest' hf'
  rw [← hs', hs, htake] at htake'
  rw [← hs', hs, hdrop] at hdrop'
  obtain ⟨-, rfl⟩ := List.cons.inj hdrop'
  rwa [htake']

/-- A line without a colon defines nothing and is all instruction, and its label is not bad. -/
theorem line_of_no_colon {line : List Char} (h : ':' ∉ significantPart line) :
    labelOf? line = none ∧ instructionOf line = significantPart line ∧ ¬ HasBadLabel line := by
  refine ⟨if_neg h, if_neg h, ?_⟩
  rintro ⟨front, rest, hs, -⟩
  exact h (hs ▸ List.mem_append_right front List.mem_cons_self)

/-- What is checked before the first colon and behind it. -/
theorem isLabelName_and_iff {name rest : List Char} :
    (name.isEmpty || name.any Text.isBlank || rest.contains ':') = false ↔
      IsLabelName (String.ofList name) ∧ ':' ∉ rest := by
  simp only [IsLabelName, String.toList_ofList, Bool.or_eq_false_iff, List.isEmpty_eq_false_iff,
    List.any_eq_false, Bool.not_eq_true, List.contains_eq_mem, decide_eq_false_iff_not, ne_eq]

namespace Statement

/-- A line with a bad label is no statement. -/
theorem ofLine_of_bad {line : List Char} (h : HasBadLabel line) :
    ofLine line = .error (.badLabel (String.ofList (Text.trim line))) := by
  obtain ⟨front, rest, hs, hf, hb⟩ := h
  obtain ⟨htake, hdrop⟩ := @cut_at_colon front rest hf
  have hc := Bool.of_not_eq_false (mt isLabelName_and_iff.1 hb)
  simp only [ofLine, hs, htake, hdrop, hc, if_true]

/-- Any other line is a statement with its label and its instruction. -/
theorem ofLine_of_good {line : List Char} (h : ¬ HasBadLabel line) :
    ofLine line = .ok { label := labelOf? line, body := instructionOf line } := by
  by_cases hm : ':' ∈ significantPart line
  case neg =>
    simp only [ofLine, labelOf?, instructionOf, dropWhile_colon_eq_nil_iff.2 hm, hm, if_false]
  case pos =>
    obtain ⟨front, rest, hs, hf⟩ := List.eq_append_cons_of_mem hm
    obtain ⟨htake, hdrop⟩ := @cut_at_colon front rest hf
    have hgood := not_not.1 fun hb => h ⟨front, rest, hs, hf, hb⟩
    have hc := isLabelName_and_iff.2 hgood
    rw [hs] at hm
    simp only [ofLine, labelOf?, instructionOf, hs, htake, hdrop, hc, hm, if_true, List.tail_cons,
      Bool.false_eq_true, if_false]

end Statement

/-! ### Lines behind lines -/

section

variable {before : List (List Char)} {line : List Char}

/-- One more line adds its instruction, if it has one. -/
theorem instructionLines_append_singleton (before : List (List Char)) (line : List Char) :
    instructionLines (before ++ [line]) = instructionLines before ++
      if (instructionOf line).isEmpty then []
      else [⟨before.length + 1, Program.addressOf (instructionLines before).length,
        tokensOf (instructionOf line)⟩] := by
  simp only [instructionLines, List.zipIdx_append, List.filter_append, List.zipIdx_cons,
    List.zipIdx_nil, List.mapIdx_append, List.length_mapIdx, Nat.add_comm 1]
  cases he : (instructionOf line).isEmpty <;> simp [he]

/-- One more line adds its label, if it has one. -/
theorem definitions_append_singleton (before : List (List Char)) (line : List Char) :
    definitions (before ++ [line]) = definitions before ++ (labelOf? line).toList.map
      (·, Program.addressOf (instructionLines before).length) := by
  have hbefore : ∀ entry ∈ before.zipIdx, (before ++ [line]).take entry.2 = before.take entry.2 :=
    fun entry he => List.take_append_of_le_length (Nat.le_of_lt (List.snd_lt_of_mem_zipIdx he))
  simp only [definitions, List.zipIdx_append, List.filterMap_append, List.zipIdx_cons,
    List.zipIdx_nil, Nat.zero_add]
  congr 1
  · exact List.filterMap_congr fun entry he => by rw [hbefore entry he]
  · rw [List.filterMap_cons, List.take_left]
    cases labelOf? line <;> rfl

/-- A name is free if no line defines it. -/
theorem address?_definitions_eq_none_iff {lines : List (List Char)} {name : String} :
    (definitions lines).address? name = none ↔ ∀ line ∈ lines, labelOf? line ≠ some name := by
  rw [LabelTable.address?, List.lookup_eq_none_iff]
  constructor
  · intro h line hl hn
    obtain ⟨place, hp⟩ := List.mem_iff_getElem?.1 hl
    have hentry : (name, Program.addressOf (instructionLines (lines.take place)).length) ∈
        definitions lines :=
      List.mem_filterMap.2 ⟨(line, place), List.mem_zipIdx_iff_getElem?.2 hp, by rw [hn]; rfl⟩
    exact absurd rfl (bne_iff_ne.1 (h _ hentry))
  · intro h entry he
    obtain ⟨⟨line, place⟩, hl, hentry⟩ := List.mem_filterMap.1 he
    obtain ⟨known, hn, rfl⟩ := Option.map_eq_some_iff.1 hentry
    have hline : line ∈ lines := List.mem_of_getElem? (List.mem_zipIdx_iff_getElem?.1 hl)
    exact bne_iff_ne.2 fun hs => h line hline (hs ▸ hn)

/-- No lines break no rule. -/
theorem lawful_nil : Lawful [] := by
  intro before line after h
  exact absurd h.symm (List.append_ne_nil_of_right_ne_nil before (List.cons_ne_nil line after))

/-- An element of a list with one more at its end is the last one or in the list. -/
theorem append_singleton_eq_iff {α : Type} {before front back : List α} {last x : α} :
    before ++ [last] = front ++ x :: back ↔
      (∃ more, back = more ++ [last] ∧ before = front ++ x :: more) ∨
        back = [] ∧ front = before ∧ x = last := by
  constructor
  · intro h
    cases List.eq_nil_or_concat back with
    | inl hnil =>
      subst hnil
      obtain ⟨hfront, hlast⟩ := List.append_inj' h rfl
      exact .inr ⟨rfl, hfront.symm, (List.singleton_inj.1 hlast).symm⟩
    | inr hback =>
      obtain ⟨more, other, rfl⟩ := hback
      have hassoc : before ++ [last] = (front ++ x :: more) ++ [other] := by
        rw [h, List.concat_eq_append, List.append_assoc, List.cons_append]
      obtain ⟨hbefore, hlast⟩ := List.append_inj' hassoc rfl
      obtain rfl := List.singleton_inj.1 hlast
      exact .inl ⟨more, List.concat_eq_append, hbefore⟩
  · rintro (⟨more, rfl, rfl⟩ | ⟨rfl, rfl, rfl⟩)
    · rw [List.append_assoc, List.cons_append]
    · rfl

/-- Lines are lawful with one more exactly if they are lawful and the line breaks no rule. -/
theorem lawful_append_singleton_iff :
    Lawful (before ++ [line]) ↔ Lawful before ∧ ∀ defect, ¬ Breaks before line defect := by
  constructor
  · intro h
    refine ⟨fun front other back hs => ?_, h before line [] rfl⟩
    exact h front other (back ++ [line]) (append_singleton_eq_iff.2 (.inl ⟨back, rfl, hs⟩))
  · rintro ⟨hb, hl⟩ front other back hs
    rcases append_singleton_eq_iff.1 hs with ⟨more, -, hbefore⟩ | ⟨-, rfl, rfl⟩
    · exact hb front other more hbefore
    · exact hl

/-- A lawful line is added to the labels of the lines before it. -/
theorem Statement.define_of_lawful (hb : ¬ HasBadLabel line)
    (hl : ∀ defect, ¬ Breaks before line defect) (address : Word) :
    Statement.define { label := labelOf? line, body := instructionOf line } (definitions before)
      address = .ok (definitions before ++ (labelOf? line).toList.map (·, address)) := by
  refine Statement.define_eq_ok_iff.2 ⟨rfl, fun name hn => ?_⟩
  exact address?_definitions_eq_none_iff.2 fun other ho hs =>
    hl _ (.duplicateLabel hb (Option.mem_def.1 hn) ho hs)

/-- A line that breaks a rule is not added. -/
theorem Placement.ofLines_of_breaks {defect : Defect} (h : Breaks before line defect)
    (number : Nat) (address : Word) (rest : List (List Char)) :
    ofLines number address (definitions before) (line :: rest) =
      .error (.atLine number (.malformed defect)) := by
  cases h with
  | badLabel hb => simp only [ofLines, Statement.ofLine_of_bad hb]
  | @duplicateLabel name other hb hn ho hs =>
    have hknown : (definitions before).address? name ≠ none := fun hnone =>
      address?_definitions_eq_none_iff.1 hnone other ho hs
    obtain ⟨known, hk⟩ := Option.ne_none_iff_exists'.1 hknown
    simp only [ofLines, Statement.ofLine_of_good hb, Statement.define, hn, LabelTable.define?, hk]

end

/-- Placing goes on behind lawful lines: the first line that breaks a rule is reported, and if
there is none, all labels are defined and the instructions are placed behind those before. -/
theorem Placement.ofLines_behind {before : List (List Char)} (hb : Lawful before)
    (rest : List (List Char)) :
    (∃ middle line after defect, rest = middle ++ line :: after ∧ Lawful (before ++ middle) ∧
        Breaks (before ++ middle) line defect ∧
        ofLines (before.length + 1) (Program.addressOf (instructionLines before).length)
            (definitions before) rest =
          .error (.atLine ((before ++ middle).length + 1) (.malformed defect))) ∨
      Lawful (before ++ rest) ∧ ∃ lines,
        ofLines (before.length + 1) (Program.addressOf (instructionLines before).length)
            (definitions before) rest = .ok ⟨lines, definitions (before ++ rest)⟩ ∧
          instructionLines before ++ lines = instructionLines (before ++ rest) := by
  induction rest generalizing before with
  | nil =>
    refine .inr ⟨by rwa [List.append_nil], [], ?_, by rw [List.append_nil, List.append_nil]⟩
    rw [ofLines, List.append_nil]
  | cons line rest ih =>
    by_cases hl : ∃ defect, Breaks before line defect
    case pos =>
      obtain ⟨defect, hd⟩ := hl
      refine .inl ⟨[], line, rest, defect, rfl, by rwa [List.append_nil],
        by rwa [List.append_nil], ?_⟩
      rw [List.append_nil]
      exact ofLines_of_breaks hd _ _ rest
    case neg =>
      have hlawful := not_exists.1 hl
      have hbad : ¬ HasBadLabel line := fun hbad => hl ⟨_, .badLabel hbad⟩
      have hsplit : before ++ line :: rest = (before ++ [line]) ++ rest :=
        List.append_cons before line rest
      -- the line is placed, and the others are placed behind it
      obtain ⟨placed, hplaced, hlines⟩ : ∃ placed : List PlacedLine,
          ofLines (before.length + 1) (Program.addressOf (instructionLines before).length)
              (definitions before) (line :: rest) =
            (ofLines ((before ++ [line]).length + 1)
              (Program.addressOf (instructionLines (before ++ [line])).length)
              (definitions (before ++ [line])) rest).map
                (fun placement => { placement with lines := placed ++ placement.lines }) ∧
            instructionLines (before ++ [line]) = instructionLines before ++ placed := by
        refine ⟨_, ?_, instructionLines_append_singleton before line⟩
        rw [instructionLines_append_singleton, definitions_append_singleton]
        simp only [ofLines, Statement.ofLine_of_good hbad,
          Statement.define_of_lawful hbad hlawful, List.length_append, List.length_singleton]
        split
        case isTrue =>
          rw [List.length_nil, Nat.add_zero]
          cases ofLines (before.length + 1 + 1) _ _ rest <;> rfl
        case isFalse =>
          rw [List.length_singleton, ← Program.addressOf_succ, BitVec.add_comm]
          rfl
      rw [hplaced, hsplit]
      rcases ih (lawful_append_singleton_iff.2 ⟨hb, hlawful⟩) with
        ⟨middle, other, after, defect, rfl, hmiddle, hd, herror⟩ | ⟨hall, lines, hok, hjoined⟩
      · refine .inl ⟨line :: middle, other, after, defect, rfl, ?_, ?_, ?_⟩
        · rwa [List.append_cons]
        · rwa [List.append_cons]
        · rw [herror, List.append_cons before line middle]
          rfl
      · refine .inr ⟨hall, placed ++ lines, by rw [hok]; rfl, ?_⟩
        rw [← hjoined, hlines, List.append_assoc]

/-- Placing a source reports the first line that breaks a rule, or all lines are lawful and give
their instructions and labels. -/
theorem Placement.ofSource_cases (source : String) :
    (∃ before line after defect, Text.lines source.toList = before ++ line :: after ∧
        Lawful before ∧ Breaks before line defect ∧
        ofSource source = .error (.atLine (before.length + 1) (.malformed defect))) ∨
      Lawful (Text.lines source.toList) ∧ ofSource source = .ok
        ⟨instructionLines (Text.lines source.toList), definitions (Text.lines source.toList)⟩ := by
  have hplaced := ofLines_behind lawful_nil (Text.lines source.toList)
  rw [List.nil_append] at hplaced
  rcases hplaced with hbroken | ⟨hl, lines, hp, rfl⟩
  · exact .inl hbroken
  · exact .inr ⟨hl, hp⟩

/-- A list has one first element of a kind, which may depend on the elements before it. -/
theorem first_unique {α : Type} {P : List α → α → Prop} {before before' after after' : List α}
    {x x' : α} (h : before ++ x :: after = before' ++ x' :: after')
    (hn : ∀ front y back, before = front ++ y :: back → ¬ P front y)
    (hn' : ∀ front y back, before' = front ++ y :: back → ¬ P front y)
    (hx : P before x) (hx' : P before' x') : before = before' ∧ x = x' := by
  rcases List.append_eq_append_iff.1 h with ⟨more, hm, hr⟩ | ⟨more, hm, hr⟩
  · cases more with
    | nil => exact ⟨by rw [hm, List.append_nil], (List.cons.inj hr).1⟩
    | cons y more =>
      obtain ⟨rfl, -⟩ := List.cons.inj hr
      exact absurd hx (hn' _ _ _ hm)
  · cases more with
    | nil => exact ⟨by rw [hm, List.append_nil], (List.cons.inj hr).1.symm⟩
    | cons y more =>
      obtain ⟨rfl, -⟩ := List.cons.inj hr
      exact absurd hx' (hn _ _ _ hm)

/-- A line breaks one rule at most. -/
theorem Breaks.unique {before : List (List Char)} {line : List Char} {defect defect' : Defect}
    (h : Breaks before line defect) (h' : Breaks before line defect') : defect = defect' := by
  cases h with
  | badLabel hb =>
    cases h' with
    | badLabel => rfl
    | duplicateLabel hb' => exact absurd hb hb'
  | duplicateLabel hb hn =>
    cases h' with
    | badLabel hb' => exact absurd hb' hb
    | duplicateLabel _ hn' => rw [Option.some.inj (hn.symm.trans hn')]

/-- Lines have one first line that breaks a rule. -/
theorem Breaks.first_unique {before before' after after' : List (List Char)}
    {line line' : List Char} {defect defect' : Defect} (hd : Breaks before line defect)
    (hd' : Breaks before' line' defect') (hb : Lawful before) (hb' : Lawful before')
    (h : before ++ line :: after = before' ++ line' :: after') :
    before = before' ∧ line = line' ∧ defect = defect' := by
  obtain ⟨rfl, rfl⟩ := MiniRisc.first_unique
    (P := fun before line => ∃ defect, Breaks before line defect) h
    (fun _ _ _ hs => not_exists.2 (hb _ _ _ hs)) (fun _ _ _ hs => not_exists.2 (hb' _ _ _ hs))
    ⟨_, hd⟩ ⟨_, hd'⟩
  exact ⟨rfl, rfl, hd.unique hd'⟩

/-- An instruction line cannot be encoded. -/
def PlacedLine.FailsWith (labels : LabelTable) (line : PlacedLine) (error : LineError) : Prop :=
  Site.encode ⟨line.address, labels⟩ line.tokens = .error error

/-- A line that gives a word does not fail. -/
theorem PlacedLine.Gives.not_failsWith {labels : LabelTable} {line : PlacedLine} {word : Word}
    (h : line.Gives labels word) (error : LineError) : ¬ line.FailsWith labels error := by
  obtain ⟨encoded, he, -⟩ := h
  intro hf
  cases he.symm.trans hf

/-- Lines are encoded up to the first that fails, or all of them are. -/
theorem encodeLines_cases (labels : LabelTable) (lines : List PlacedLine) :
    (∃ words, List.Forall₂ (PlacedLine.Gives labels) lines words ∧
        (encodeLines labels lines).2 = none ∧
        (encodeLines labels lines).1.map (·.encoded.word) = words) ∨
      ∃ before line after error, lines = before ++ line :: after ∧
        (∀ other ∈ before, ∃ word, other.Gives labels word) ∧ line.FailsWith labels error ∧
        (encodeLines labels lines).2 = some (.atLine line.number error) := by
  induction lines with
  | nil => exact .inl ⟨[], .nil, rfl, rfl⟩
  | cons line rest ih =>
    cases he : Site.encode ⟨line.address, labels⟩ line.tokens with
    | error error =>
      exact .inr ⟨[], line, rest, error, rfl, List.forall_mem_nil _, he,
        by simp only [encodeLines, he]⟩
    | ok encoded =>
      have hgives : line.Gives labels encoded.word := ⟨encoded, he, rfl⟩
      rcases ih with ⟨words, hall, hn, hw⟩ | ⟨before, other, after, error, rfl, hb, hf, hn⟩
      · refine .inl ⟨encoded.word :: words, .cons hgives hall, ?_⟩
        simp only [encodeLines, he, hn, List.map_cons, hw, and_self]
      · refine .inr ⟨line :: before, other, after, error, rfl, ?_, hf,
          by simp only [encodeLines, he, hn]⟩
        exact List.forall_mem_cons.2 ⟨⟨_, hgives⟩, hb⟩

namespace Assembly

/-- What is reported about a source with the given lines. -/
inductive Reports (lines : List (List Char)) : Except AssemblyError Assembly → Prop
  /-- The first line that breaks a rule for labels, whether the instructions before it can be
  encoded or not. -/
  | label {before : List (List Char)} {line : List Char} {after : List (List Char)}
      {defect : Defect} (hl : lines = before ++ line :: after) (hb : Lawful before)
      (hd : Breaks before line defect) :
    Reports lines (.error (.atLine (before.length + 1) (.malformed defect)))
  /-- The first instruction that cannot be encoded where it stands, with the labels of all
  lines. -/
  | instruction {before : List PlacedLine} {line : PlacedLine} {after : List PlacedLine}
      {error : LineError} (hl : Lawful lines)
      (hi : instructionLines lines = before ++ line :: after)
      (hb : ∀ other ∈ before, ∃ word, other.Gives (definitions lines) word)
      (hf : line.FailsWith (definitions lines) error) :
    Reports lines (.error (.atLine line.number error))
  /-- No word ends the program. -/
  | noVirtualHalt {words : List Word} (hl : Lawful lines)
      (hw : List.Forall₂ (PlacedLine.Gives (definitions lines)) (instructionLines lines) words)
      (hv : Word.virtualHalt ∉ words) : Reports lines (.error .noVirtualHalt)
  /-- The words of all instructions in their order, and all labels. -/
  | accepted {words : List Word} (hl : Lawful lines)
      (hw : List.Forall₂ (PlacedLine.Gives (definitions lines)) (instructionLines lines) words)
      (hv : Word.virtualHalt ∈ words) : Reports lines (.ok ⟨words, definitions lines⟩)

/-- What the assembler says is what is reported. -/
theorem reports_ofSource (source : String) :
    Reports (Text.lines source.toList) (ofSource source) := by
  rcases Placement.ofSource_cases source with
    ⟨before, line, after, defect, hl, hb, hd, hs⟩ | ⟨hl, hs⟩
  · simp only [ofSource, run, hs]
    exact .label hl hb hd
  · simp only [ofSource, run, hs]
    rcases encodeLines_cases (definitions (Text.lines source.toList))
      (instructionLines (Text.lines source.toList)) with
      ⟨words, hw, hn, rfl⟩ | ⟨before, line, after, error, hi, hb, hf, hn⟩
    · rw [hn]
      dsimp only
      split
      case isTrue hv => exact .accepted hl hw (List.contains_iff_mem.1 hv)
      case isFalse hv => exact .noVirtualHalt hl hw fun hm => hv (List.contains_iff_mem.2 hm)
    · rw [hn]
      exact .instruction hl hi hb hf

/-- Every instruction with a word gives it. -/
theorem gives_of_mem {labels : LabelTable} {lines : List PlacedLine} {words : List Word}
    (h : List.Forall₂ (PlacedLine.Gives labels) lines words) {line : PlacedLine}
    (hl : line ∈ lines) : ∃ word, line.Gives labels word := by
  obtain ⟨place, hlt, rfl⟩ := List.mem_iff_getElem.1 hl
  exact ⟨_, h.get hlt (h.length_eq ▸ hlt)⟩

/-- The instructions of lines give their words in one way. -/
theorem words_unique {labels : LabelTable} {lines : List PlacedLine} {words words' : List Word}
    (h : List.Forall₂ (PlacedLine.Gives labels) lines words)
    (h' : List.Forall₂ (PlacedLine.Gives labels) lines words') : words = words' :=
  (encodeLines_iff.2 h).2.symm.trans (encodeLines_iff.2 h').2

/-- An instruction that fails has no word. -/
theorem not_failsWith_of_split {labels : LabelTable} {lines before after : List PlacedLine}
    {line : PlacedLine} {words : List Word} {error : LineError}
    (h : List.Forall₂ (PlacedLine.Gives labels) lines words)
    (hs : lines = before ++ line :: after) : ¬ line.FailsWith labels error := by
  have hm : line ∈ lines := hs ▸ List.mem_append_right before List.mem_cons_self
  obtain ⟨word, hg⟩ := gives_of_mem h hm
  exact hg.not_failsWith error

/-- Only one thing is reported about lines. -/
theorem Reports.unique {lines : List (List Char)} {outcome outcome' : Except AssemblyError Assembly}
    (h : Reports lines outcome) (h' : Reports lines outcome') : outcome = outcome' := by
  cases h with
  | label hl hb hd =>
    cases h' with
    | label hl' hb' hd' =>
      obtain ⟨rfl, -, rfl⟩ := hd.first_unique hd' hb hb' (hl.symm.trans hl')
      rfl
    | instruction hl' | noVirtualHalt hl' | accepted hl' => exact absurd hd (hl' _ _ _ hl _)
  | @instruction before line _ error hl hi hb hf =>
    cases h' with
    | label hl' _ hd' => exact absurd hd' (hl _ _ _ hl' _)
    | @instruction before' line' _ error' _ hi' hb' hf' =>
      -- the lines before the first that fails have words
      have hwords : ∀ front : List PlacedLine,
          (∀ other ∈ front, ∃ word, other.Gives (definitions lines) word) →
          ∀ head (y : PlacedLine) tail, front = head ++ y :: tail →
            ¬ ∃ error, y.FailsWith (definitions lines) error := by
        rintro _ hall head y tail rfl ⟨error, hy⟩
        obtain ⟨word, hg⟩ := hall y (List.mem_append_right head List.mem_cons_self)
        exact hg.not_failsWith error hy
      obtain ⟨rfl, rfl⟩ := first_unique
        (P := fun _ line => ∃ error, PlacedLine.FailsWith (definitions lines) line error)
        (hi.symm.trans hi') (hwords before hb) (hwords before' hb') ⟨_, hf⟩ ⟨_, hf'⟩
      obtain rfl : error = error' := Except.error.inj (hf.symm.trans hf')
      rfl
    | noVirtualHalt _ hw' | accepted _ hw' => exact absurd hf (not_failsWith_of_split hw' hi)
  | noVirtualHalt hl hw hv =>
    cases h' with
    | label hl' _ hd' => exact absurd hd' (hl _ _ _ hl' _)
    | instruction _ hi' _ hf' => exact absurd hf' (not_failsWith_of_split hw hi')
    | noVirtualHalt => rfl
    | accepted _ hw' hv' => exact absurd (words_unique hw' hw ▸ hv') hv
  | accepted hl hw hv =>
    cases h' with
    | label hl' _ hd' => exact absurd hd' (hl _ _ _ hl' _)
    | instruction _ hi' _ hf' => exact absurd hf' (not_failsWith_of_split hw hi')
    | noVirtualHalt _ hw' hv' => exact absurd (words_unique hw hw' ▸ hv) hv'
    | accepted _ hw' => rw [words_unique hw hw']

/-- The assembler says of a source exactly what is reported about its lines: the first line that
breaks a rule for labels, else the first instruction that cannot be encoded with all labels known,
else that the program has no end, else its words and labels. -/
theorem ofSource_eq_iff_reports (source : String) (outcome : Except AssemblyError Assembly) :
    ofSource source = outcome ↔ Reports (Text.lines source.toList) outcome :=
  ⟨fun h => h ▸ reports_ofSource source, (reports_ofSource source).unique⟩

/-- A label that is defined twice is reported before an instruction on an earlier line that cannot
be encoded. -/
example : ofSource "a: mov t0, t1\n\na: rst # again" =
    .error (.atLine 3 (.malformed (.duplicateLabel "a"))) := by
  decide +kernel

end Assembly

end MiniRisc
