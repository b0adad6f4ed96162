import Mathlib.Data.List.DropRight
import Mathlib.Data.List.Forall2
import MiniRisc.Proofs.Lines
import MiniRisc.Proofs.Places

/-!
# Sources with the same significant lines

A line is significant if something is left of it without its comment and the blanks at its ends.
What is reported about a source is what is reported about its significant lines alone, with the
lines numbered as they are in the source. So blank lines, comments, indentation and line endings
change nothing but the numbers of lines and the text that is quoted of a line with a bad label.
-/

namespace MiniRisc

/-- What is left of the lines with something besides a comment. -/
def significantLines (lines : List (List Char)) : List (List Char) :=
  (lines.map significantPart).filter (!·.isEmpty)

/-- The numbers of the lines with something besides a comment. -/
def significantNumbers (lines : List (List Char)) : List Nat :=
  ((lines.zipIdx 1).filter fun entry => !(significantPart entry.1).isEmpty).map Prod.snd

/-- Errors are the same, or they are bad labels on lines that are written in two ways. -/
inductive LineError.SameKind : LineError → LineError → Prop
  /-- The same error. -/
  | same (error : LineError) : SameKind error error
  /-- A bad label, each with the text of its own line. -/
  | badLabel (line other : String) :
    SameKind (.malformed (.badLabel line)) (.malformed (.badLabel other))

namespace Assembly

/-- Two sources whose significant lines have the given numbers come to the same: the same words and
labels, no end of the program, or an error of one kind on the same significant line, each with the
number that the line has in its source. -/
inductive Corresponds (numbers others : List Nat) :
    Except AssemblyError Assembly → Except AssemblyError Assembly → Prop
  /-- Both are accepted. -/
  | accepted (assembly : Assembly) : Corresponds numbers others (.ok assembly) (.ok assembly)
  /-- No word ends the program of either. -/
  | noVirtualHalt : Corresponds numbers others (.error .noVirtualHalt) (.error .noVirtualHalt)
  /-- The same significant line is wrong in both. -/
  | atLine {place number other : Nat} {error error' : LineError}
      (hn : numbers[place]? = some number) (ho : others[place]? = some other)
      (hk : error.SameKind error') :
    Corresponds numbers others (.error (.atLine number error)) (.error (.atLine other error'))

end Assembly

namespace Text

/-- A trimmed text is made of characters of the text. -/
theorem mem_of_mem_trim {text : List Char} {c : Char} (h : c ∈ trim text) : c ∈ text :=
  (List.dropWhile_sublist _).mem
    (List.mem_reverse.1 ((List.dropWhile_sublist _).mem (List.mem_reverse.1 h)))

/-- A trimmed text is trimmed. -/
theorem trim_trim (text : List Char) : trim (trim text) = trim text := by
  have htrim : trim text = (text.dropWhile isBlank).rdropWhile isBlank := rfl
  cases ht : trim text with
  | nil => rfl
  | cons c rest =>
    refine trim_eq_self ⟨c, rest, rfl, ?_⟩ ?_
    · obtain ⟨more, hm⟩ := List.rdropWhile_prefix isBlank (text.dropWhile isBlank)
      rw [← htrim, ht] at hm
      have hne : text.dropWhile isBlank ≠ [] := by
        rw [← hm]
        exact List.cons_ne_nil c (rest ++ more)
      have hfirst := List.head_dropWhile_not isBlank hne
      simp only [← hm] at hfirst
      exact hfirst
    · have hne : (text.dropWhile isBlank).rdropWhile isBlank ≠ [] := by
        rw [← htrim, ht]
        exact List.cons_ne_nil c rest
      refine ⟨_, _, (List.dropLast_concat_getLast (List.cons_ne_nil c rest)).symm, ?_⟩
      have hlast := List.rdropWhile_last_not isBlank _ hne
      simp only [← htrim, ht] at hlast
      exact Bool.eq_false_iff.2 hlast

end Text

/-- Nothing in a significant part starts a comment. -/
theorem of_mem_significantPart {line : List Char} {c : Char} (h : c ∈ significantPart line) :
    c ≠ '#' ∧ c ≠ ';' := by
  have hc := List.mem_takeWhile_imp (Text.mem_of_mem_trim h)
  simpa using hc

/-- A significant part is its own significant part. -/
theorem significantPart_significantPart (line : List Char) :
    significantPart (significantPart line) = significantPart line :=
  significantPart_eq_self (fun _ hc => of_mem_significantPart hc) (Text.trim_trim _)

section

variable {before lines : List (List Char)} {line : List Char} {name : String}

/-! ### What a line says is said by its significant part -/

/-- The significant part of a line defines the name of the line. -/
theorem labelOf?_significantPart (line : List Char) :
    labelOf? (significantPart line) = labelOf? line := by
  rw [labelOf?, significantPart_significantPart, labelOf?]

/-- The significant part of a line has the instruction of the line. -/
theorem instructionOf_significantPart (line : List Char) :
    instructionOf (significantPart line) = instructionOf line := by
  rw [instructionOf, significantPart_significantPart, instructionOf]

/-- The significant part of a line has a bad label exactly if the line has one. -/
theorem hasBadLabel_significantPart_iff :
    HasBadLabel (significantPart line) ↔ HasBadLabel line := by
  rw [HasBadLabel, significantPart_significantPart, HasBadLabel]

/-- A line with a name is significant. -/
theorem significantPart_ne_nil_of_labelOf? (h : labelOf? line = some name) :
    significantPart line ≠ [] := by
  rintro hnil
  rw [labelOf?, hnil, if_neg List.not_mem_nil] at h
  cases h

/-- A line with a bad label is significant. -/
theorem HasBadLabel.significantPart_ne_nil (h : HasBadLabel line) : significantPart line ≠ [] := by
  obtain ⟨front, rest, hs, -⟩ := h
  rw [hs]
  exact List.append_ne_nil_of_right_ne_nil front (List.cons_ne_nil ':' rest)

/-- A line that is not significant has no instruction. -/
theorem instructionOf_of_blank (h : significantPart line = []) : instructionOf line = [] := by
  rw [instructionOf, h, if_neg List.not_mem_nil]

/-- A line that is not significant has no name. -/
theorem labelOf?_of_blank (h : significantPart line = []) : labelOf? line = none :=
  Option.eq_none_iff_forall_ne_some.2 fun _ hn => significantPart_ne_nil_of_labelOf? hn h

/-- A line that is not significant breaks no rule. -/
theorem not_breaks_of_blank (h : significantPart line = []) (defect : Defect) :
    ¬ Breaks before line defect := by
  rintro (hb | ⟨-, hn⟩)
  · exact hb.significantPart_ne_nil h
  · exact significantPart_ne_nil_of_labelOf? hn h

/-! ### One more line -/

/-- The significant lines of lines behind others stand behind theirs. -/
theorem significantLines_append (before rest : List (List Char)) :
    significantLines (before ++ rest) = significantLines before ++ significantLines rest := by
  rw [significantLines, List.map_append, List.filter_append, significantLines, significantLines]

/-- A significant line is its own significant part, which is not empty. -/
theorem of_mem_significantLines (h : line ∈ significantLines lines) :
    significantPart line = line ∧ line ≠ [] := by
  obtain ⟨hm, hne⟩ := List.mem_filter.1 h
  obtain ⟨other, -, rfl⟩ := List.mem_map.1 hm
  refine ⟨significantPart_significantPart other, List.isEmpty_eq_false_iff.1 ?_⟩
  rwa [Bool.not_eq_true'] at hne

/-- A line that is not significant adds nothing. -/
theorem significantLines_append_blank (h : significantPart line = []) :
    significantLines (before ++ [line]) = significantLines before ∧
      significantNumbers (before ++ [line]) = significantNumbers before := by
  simp [significantLines, significantNumbers, List.zipIdx_append, h]

/-- A significant line is added, with its number. -/
theorem significantLines_append_singleton (h : significantPart line ≠ []) :
    significantLines (before ++ [line]) = significantLines before ++ [significantPart line] ∧
      significantNumbers (before ++ [line]) =
        significantNumbers before ++ [before.length + 1] := by
  simp [significantLines, significantNumbers, List.zipIdx_append, h, Nat.add_comm]

/-- Every significant line has a number. -/
theorem length_significantNumbers (lines : List (List Char)) :
    (significantNumbers lines).length = (significantLines lines).length := by
  induction lines using List.reverseRecOn with
  | nil => rfl
  | append_singleton before line ih =>
    by_cases hs : significantPart line = []
    case pos =>
      obtain ⟨hl, hn⟩ := @significantLines_append_blank before line hs
      rw [hl, hn, ih]
    case neg =>
      obtain ⟨hl, hn⟩ := @significantLines_append_singleton before line hs
      rw [hl, hn, List.length_append, List.length_append, ih]
      rfl

/-- A significant line keeps its number whatever lines follow. -/
theorem getElem?_significantNumbers_append {place number : Nat}
    (h : (significantNumbers before)[place]? = some number) (after : List (List Char)) :
    (significantNumbers (before ++ after))[place]? = some number := by
  obtain ⟨hlt, -⟩ := List.getElem?_eq_some_iff.1 h
  rw [significantNumbers, List.zipIdx_append, List.filter_append, List.map_append,
    ← significantNumbers, List.getElem?_append_left hlt, h]

/-- The number of a significant line is in the place of the line among the significant ones. -/
theorem getElem?_significantNumbers (before : List (List Char)) (h : significantPart line ≠ []) :
    (significantNumbers (before ++ [line]))[(significantLines before).length]? =
      some (before.length + 1) := by
  rw [(significantLines_append_singleton h).2, ← length_significantNumbers,
    List.getElem?_concat_length]

/-! ### The instructions and labels of significant lines -/

/-- An instruction is that of another list of lines, but for the number of its line, which is in the
place of the other number. -/
def PlacedLine.Renumbers (numbers : List Nat) (line other : PlacedLine) : Prop :=
  other.address = line.address ∧ other.tokens = line.tokens ∧
    ∃ place, line.number = place + 1 ∧ numbers[place]? = some other.number

/-- The significant lines have the instructions of the lines, with the places of the lines among
them as numbers. -/
theorem instructionLines_significantLines (lines : List (List Char)) :
    List.Forall₂ (PlacedLine.Renumbers (significantNumbers lines))
      (instructionLines (significantLines lines)) (instructionLines lines) := by
  induction lines using List.reverseRecOn with
  | nil => exact .nil
  | append_singleton before line ih =>
    by_cases hs : significantPart line = []
    case pos =>
      obtain ⟨hl, hn⟩ := @significantLines_append_blank before line hs
      rw [hl, hn, instructionLines_append_singleton, instructionOf_of_blank hs, List.isEmpty_nil,
        if_pos rfl, List.append_nil]
      exact ih
    case neg =>
      rw [(significantLines_append_singleton hs).1, instructionLines_append_singleton,
        instructionLines_append_singleton, instructionOf_significantPart, ih.length_eq]
      refine List.rel_append (ih.imp fun placed other h => ?_) ?_
      · obtain ⟨ha, ht, place, hp, hnumber⟩ := h
        exact ⟨ha, ht, place, hp, getElem?_significantNumbers_append hnumber [line]⟩
      · split
        case isTrue => exact .nil
        case isFalse => exact .cons ⟨rfl, rfl, _, rfl, getElem?_significantNumbers before hs⟩ .nil

/-- The significant lines define the labels of the lines. -/
theorem definitions_significantLines (lines : List (List Char)) :
    definitions (significantLines lines) = definitions lines := by
  induction lines using List.reverseRecOn with
  | nil => rfl
  | append_singleton before line ih =>
    have hlength := (instructionLines_significantLines before).length_eq
    by_cases hs : significantPart line = []
    case pos =>
      rw [(significantLines_append_blank hs).1, ih, definitions_append_singleton,
        labelOf?_of_blank hs, Option.toList_none, List.map_nil, List.append_nil]
    case neg =>
      rw [(significantLines_append_singleton hs).1, definitions_append_singleton,
        definitions_append_singleton, ih, hlength, labelOf?_significantPart]

/-- The significant lines have the names of the lines. -/
theorem filterMap_labelOf?_significantLines (lines : List (List Char)) :
    (significantLines lines).filterMap labelOf? = lines.filterMap labelOf? := by
  rw [← map_fst_definitions, definitions_significantLines, map_fst_definitions]

/-- A line breaks a rule behind lines exactly if its significant part does behind theirs. -/
theorem forall_not_breaks_significantLines_iff :
    (∀ defect, ¬ Breaks (significantLines before) (significantPart line) defect) ↔
      ∀ defect, ¬ Breaks before line defect := by
  rw [forall_not_breaks_iff, forall_not_breaks_iff, hasBadLabel_significantPart_iff,
    labelOf?_significantPart, filterMap_labelOf?_significantLines]

/-- The significant lines are lawful exactly if the lines are. -/
theorem lawful_significantLines_iff : Lawful (significantLines lines) ↔ Lawful lines := by
  induction lines using List.reverseRecOn with
  | nil => exact Iff.rfl
  | append_singleton before line ih =>
    by_cases hs : significantPart line = []
    case pos =>
      rw [(significantLines_append_blank hs).1, ih, lawful_append_singleton_iff]
      exact (and_iff_left fun defect => not_breaks_of_blank hs defect).symm
    case neg =>
      rw [(significantLines_append_singleton hs).1, lawful_append_singleton_iff,
        lawful_append_singleton_iff, ih, forall_not_breaks_significantLines_iff]

/-- A rule that a line breaks is broken by its significant part, which may be quoted another way. -/
theorem Breaks.significant {defect : Defect} (h : Breaks before line defect) :
    ∃ other, Breaks (significantLines before) (significantPart line) other ∧
      LineError.SameKind (.malformed other) (.malformed defect) := by
  cases h with
  | badLabel hb =>
    exact ⟨_, .badLabel (hasBadLabel_significantPart_iff.2 hb), .badLabel _ _⟩
  | @duplicateLabel name other hb hn ho hs =>
    have hm : significantPart other ∈ significantLines before :=
      List.mem_filter.2 ⟨List.mem_map.2 ⟨other, ho, rfl⟩,
        by simpa using significantPart_ne_nil_of_labelOf? hs⟩
    rw [← labelOf?_significantPart] at hn hs
    exact ⟨_, .duplicateLabel (mt hasBadLabel_significantPart_iff.1 hb) hn hm hs, .same _⟩

/-- The significant lines of lines around a line that breaks a rule stand around its significant
part, and its number is in its place among the numbers. -/
theorem Breaks.split_significantLines {defect : Defect} (h : Breaks before line defect)
    (after : List (List Char)) :
    significantLines (before ++ line :: after) =
        significantLines before ++ significantPart line :: significantLines after ∧
      (significantNumbers (before ++ line :: after))[(significantLines before).length]? =
        some (before.length + 1) := by
  have hs : significantPart line ≠ [] := fun hs => not_breaks_of_blank hs defect h
  rw [List.append_cons before line after, List.append_cons (significantLines before),
    ← (significantLines_append_singleton hs).1]
  exact ⟨significantLines_append _ after,
    getElem?_significantNumbers_append (getElem?_significantNumbers before hs) after⟩

end

/-! ### Two sources -/

/-- Relations between the elements of lists compose. -/
theorem forall₂_comp {α β γ : Type} {R : α → β → Prop} {S : β → γ → Prop} {T : α → γ → Prop}
    (h : ∀ a b c, R a b → S b c → T a c) {first : List α} {second : List β} {third : List γ}
    (hr : List.Forall₂ R first second) (hs : List.Forall₂ S second third) :
    List.Forall₂ T first third := by
  induction hr generalizing third with
  | nil =>
    obtain rfl := List.forall₂_nil_left_iff.1 hs
    exact .nil
  | cons hab _ ih =>
    obtain ⟨c, rest, hbc, hrest, rfl⟩ := List.forall₂_cons_left_iff.1 hs
    exact .cons (h _ _ _ hab hbc) (ih hrest)

/-- Two instructions are the same but for the numbers of their lines, which are in the same place of
two lists of numbers. -/
def PlacedLine.SameBut (numbers others : List Nat) (line other : PlacedLine) : Prop :=
  line.address = other.address ∧ line.tokens = other.tokens ∧
    ∃ place : Nat, numbers[place]? = some line.number ∧ others[place]? = some other.number

/-- Lines with the same significant lines have the same instructions. -/
theorem forall₂_sameBut {lines others : List (List Char)}
    (h : significantLines lines = significantLines others) :
    List.Forall₂ (PlacedLine.SameBut (significantNumbers lines) (significantNumbers others))
      (instructionLines lines) (instructionLines others) := by
  refine forall₂_comp (fun line placed other hl ho => ?_)
    (instructionLines_significantLines lines).flip (h ▸ instructionLines_significantLines others)
  obtain ⟨ha, ht, place, hp, hn⟩ := hl
  obtain ⟨ha', ht', place', hp', hn'⟩ := ho
  obtain rfl : place = place' := Nat.succ.inj (hp.symm.trans hp')
  exact ⟨ha.trans ha'.symm, ht.trans ht'.symm, place, hn, hn'⟩

/-- The same instructions are encoded as the same words, up to the first that cannot be encoded. -/
theorem encodeLines_sameBut (labels : LabelTable) {numbers others : List Nat}
    {lines lines' : List PlacedLine}
    (h : List.Forall₂ (PlacedLine.SameBut numbers others) lines lines') :
    (encodeLines labels lines).1.map (·.encoded.word) =
        (encodeLines labels lines').1.map (·.encoded.word) ∧
      ((encodeLines labels lines).2 = none ∧ (encodeLines labels lines').2 = none ∨
        ∃ (place number other : Nat) (error : LineError), numbers[place]? = some number ∧
          others[place]? = some other ∧
          (encodeLines labels lines).2 = some (.atLine number error) ∧
          (encodeLines labels lines').2 = some (.atLine other error)) := by
  induction h with
  | nil => exact ⟨rfl, .inl ⟨rfl, rfl⟩⟩
  | @cons line other rest rest' hline _ ih =>
    obtain ⟨ha, ht, place, hn, ho⟩ := hline
    rw [encodeLines, encodeLines, ha, ht]
    cases Site.encode ⟨other.address, labels⟩ other.tokens with
    | error error => exact ⟨rfl, .inr ⟨place, _, _, error, hn, ho, rfl, rfl⟩⟩
    | ok encoded => exact ⟨congrArg (encoded.word :: ·) ih.1, ih.2⟩

/-- Errors of the kind of one error are of one kind. -/
theorem LineError.SameKind.of_left {error first second : LineError} (hf : error.SameKind first)
    (hs : error.SameKind second) : first.SameKind second := by
  cases hf with
  | same => exact hs
  | badLabel line other =>
    cases hs with
    | same => exact .badLabel other line
    | badLabel _ other' => exact .badLabel other other'

namespace Assembly

/-- If a line of each of two lists breaks a rule first, and the significant lines are the same, the
same significant line does. -/
theorem corresponds_of_breaks {before after before' after' : List (List Char)}
    {line line' : List Char} {defect defect' : Defect} (hb : Lawful before) (hb' : Lawful before')
    (hd : Breaks before line defect) (hd' : Breaks before' line' defect')
    (h : significantLines (before ++ line :: after) =
      significantLines (before' ++ line' :: after')) :
    Corresponds (significantNumbers (before ++ line :: after))
      (significantNumbers (before' ++ line' :: after'))
      (.error (.atLine (before.length + 1) (.malformed defect)))
      (.error (.atLine (before'.length + 1) (.malformed defect'))) := by
  obtain ⟨hsplit, hn⟩ := hd.split_significantLines after
  obtain ⟨hsplit', hn'⟩ := hd'.split_significantLines after'
  obtain ⟨known, hk, hkind⟩ := hd.significant
  obtain ⟨known', hk', hkind'⟩ := hd'.significant
  obtain ⟨hfront, -, rfl⟩ := hk.first_unique hk' (lawful_significantLines_iff.2 hb)
    (lawful_significantLines_iff.2 hb') (hsplit.symm.trans (h.trans hsplit'))
  rw [hfront] at hn
  exact .atLine hn hn' (hkind.of_left hkind')

/-- Sources with the same significant lines correspond. -/
theorem corresponds_of_significantLines {source other : String}
    (h : significantLines (Text.lines source.toList) = significantLines (Text.lines other.toList)) :
    Corresponds (significantNumbers (Text.lines source.toList))
      (significantNumbers (Text.lines other.toList)) (ofSource source) (ofSource other) := by
  have hlawful : Lawful (Text.lines source.toList) ↔ Lawful (Text.lines other.toList) := by
    rw [← lawful_significantLines_iff, h, lawful_significantLines_iff]
  rcases Placement.ofSource_cases source with
    ⟨before, line, after, defect, hl, hb, hd, hs⟩ | ⟨hl, hs⟩ <;>
  rcases Placement.ofSource_cases other with
    ⟨before', line', after', defect', hl', hb', hd', hs'⟩ | ⟨hl', hs'⟩
  · simp only [ofSource, run, hs, hs']
    rw [hl, hl'] at h ⊢
    exact corresponds_of_breaks hb hb' hd hd' h
  · exact absurd hd (hlawful.2 hl' _ _ _ hl defect)
  · exact absurd hd' (hlawful.1 hl _ _ _ hl' defect')
  · have hdefinitions : definitions (Text.lines source.toList) =
        definitions (Text.lines other.toList) := by
      rw [← definitions_significantLines, h, definitions_significantLines]
    obtain ⟨hwords, ⟨hn, hn'⟩ | ⟨place, number, number', error, hn, hn', he, he'⟩⟩ :=
      encodeLines_sameBut (definitions (Text.lines other.toList)) (forall₂_sameBut h)
    · simp only [ofSource, run, hs, hs', hdefinitions, hn, hn', hwords]
      split
      case isTrue => exact .accepted _
      case isFalse => exact .noVirtualHalt
    · simp only [ofSource, run, hs, hs', hdefinitions, he, he']
      exact .atLine hn hn' (.same error)

end Assembly

end MiniRisc
