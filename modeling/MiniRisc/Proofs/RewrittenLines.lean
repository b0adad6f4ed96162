import MiniRisc.Proofs.Numerals
import MiniRisc.Proofs.SignificantLines

/-!
# Lines that can be written another way

A label may stand on a line of its own before its instruction, and a mnemonic may be written in
either case. A source that is accepted is accepted with such changes, and gives the same words and
labels. What a change must keep is said for one line: the label, whether there is an instruction,
and the words that the instruction is encoded as.
-/

namespace MiniRisc

/-- The second line is the first one with its mnemonic written in another case: the characters are
the same up to ASCII case, and those of the label and the operands are the same. -/
structure Recased (line other : List Char) : Prop where
  /-- The characters are the same up to ASCII case. -/
  text : other.map Char.toLower = line.map Char.toLower
  /-- The label is the same. -/
  label : labelOf? other = labelOf? line
  /-- The operands are the same. -/
  operands : (tokensOf (instructionOf other)).tail = (tokensOf (instructionOf line)).tail

/-- The second lines are the first ones with one of them split behind its colon, or with mnemonics
in another case. -/
inductive Rewritten : List (List Char) → List (List Char) → Prop
  /-- What stands behind a colon is moved to a line of its own. -/
  | split (before : List (List Char)) (name rest : List Char) (after : List (List Char)) :
    Rewritten (before ++ (name ++ ':' :: rest) :: after)
      (before ++ significantLines [name ++ [':'], rest] ++ after)
  /-- Mnemonics are written in another case. -/
  | recased {lines others : List (List Char)} (h : List.Forall₂ Recased lines others) :
    Rewritten lines others

namespace Text

/-! ### Texts in lower case -/

/-- A character beyond ASCII is its own form in lower case. -/
theorem toLower_of_ge {c : Char} (h : 128 ≤ c.toNat) : c.toLower = c :=
  dif_neg fun hu => absurd (Nat.le_trans h hu.2) (by decide)

/-- A character is blank in lower case exactly if it is blank. -/
theorem isBlank_toLower (c : Char) : isBlank c.toLower = isBlank c := by
  revert c
  exact char_cases (by decide +kernel) fun c hc => by rw [toLower_of_ge hc]

/-- A character that is no letter is not the form of another one in lower case. -/
theorem toLower_eq_iff {c d : Char} (hd : d.isAlpha = false) : c.toLower = d ↔ c = d := by
  have halpha : ∀ c : Char, c.isAlpha = false → c.toLower = c :=
    char_cases (by decide +kernel) fun c hc _ => toLower_of_ge hc
  have hlower : ∀ c : Char, c.toLower.isAlpha = c.isAlpha :=
    char_cases (by decide +kernel) fun c hc => by rw [toLower_of_ge hc]
  constructor
  · intro h
    have hc : c.isAlpha = false := by rw [← hlower, h, hd]
    exact (halpha c hc).symm.trans h
  · rintro rfl
    exact halpha c hd

/-- A character differs from one that is no letter exactly if it does in lower case. -/
theorem toLower_bne {d : Char} (hd : d.isAlpha = false) (c : Char) :
    (c.toLower != d) = (c != d) := by
  rw [Bool.eq_iff_iff, bne_iff_ne, bne_iff_ne, ne_eq, toLower_eq_iff hd]

/-- Trimming does not look at the case. -/
theorem trim_map_toLower (text : List Char) :
    trim (text.map Char.toLower) = (trim text).map Char.toLower := by
  have hb : isBlank ∘ Char.toLower = isBlank := funext isBlank_toLower
  rw [trim, trim, List.dropWhile_map, hb, ← List.map_reverse, List.dropWhile_map, hb,
    ← List.map_reverse]

/-- A text is cut into pieces without a look at the case, if separators are found without one. -/
theorem pieces_map_toLower {separator : Char → Bool}
    (h : ∀ c, separator c.toLower = separator c) (text : List Char) :
    pieces separator (text.map Char.toLower) =
      (pieces separator text).map (List.map Char.toLower) := by
  induction text with
  | nil => rfl
  | cons c rest ih =>
    rw [List.map_cons, pieces, pieces, h, ih]
    split
    case isTrue => rfl
    case isFalse => cases pieces separator rest <;> rfl

/-- The words of a text in lower case are its words in lower case. -/
theorem words_map_toLower (text : List Char) :
    words (text.map Char.toLower) = (words text).map (List.map Char.toLower) := by
  rw [words, words, pieces_map_toLower isBlank_toLower, List.filter_map]
  congr 2
  funext piece
  cases piece <;> rfl

end Text

/-- The tokens of a text in lower case are its tokens in lower case. -/
theorem tokensOf_map_toLower (body : List Char) :
    tokensOf (body.map Char.toLower) = (tokensOf body).map String.toLower := by
  have hspace : (fun c => if c = ',' ∨ c = '(' then ' ' else c) ∘ Char.toLower =
      Char.toLower ∘ fun c => if c = ',' ∨ c = '(' then ' ' else c := by
    funext c
    have hcomma : c.toLower = ',' ↔ c = ',' := Text.toLower_eq_iff (by decide)
    have hopen : c.toLower = '(' ↔ c = '(' := Text.toLower_eq_iff (by decide)
    simp only [Function.comp, hcomma, hopen]
    split <;> rfl
  have hclose : (· != ')') ∘ Char.toLower = (· != ')') :=
    funext fun c => Text.toLower_bne (by decide) c
  have hword : String.ofList ∘ List.map Char.toLower = String.toLower ∘ String.ofList := by
    funext word
    have hmap : ((String.ofList word).map Char.toLower).toList = word.map Char.toLower := by
      rw [String.toList_map, String.toList_ofList]
    exact String.ext ((String.toList_ofList).trans hmap.symm)
  dsimp only [tokensOf]
  rw [List.map_map, hspace, ← List.map_map, List.filter_map, hclose, Text.words_map_toLower,
    List.map_map, hword, ← List.map_map]

section

variable {line other front rest : List Char}

/-- A colon stands in a text in lower case exactly if it stands in the text. -/
theorem colon_mem_map_toLower {text : List Char} : ':' ∈ text.map Char.toLower ↔ ':' ∈ text := by
  have hc : ∀ c : Char, c.toLower = ':' ↔ c = ':' := fun c => Text.toLower_eq_iff (by decide)
  simp only [List.mem_map, hc, exists_eq_right]

/-- A name in lower case is a name. -/
theorem isLabelName_map_toLower {name : List Char} :
    IsLabelName (String.ofList (name.map Char.toLower)) ↔ IsLabelName (String.ofList name) := by
  simp only [IsLabelName, String.toList_ofList, ne_eq, List.map_eq_nil_iff, List.forall_mem_map,
    Text.isBlank_toLower]

/-- Comments and blanks are found without a look at the case. -/
theorem significantPart_map_toLower (line : List Char) :
    significantPart (line.map Char.toLower) = (significantPart line).map Char.toLower := by
  have hcomment : (fun c => c != '#' && c != ';') ∘ Char.toLower =
      fun c => c != '#' && c != ';' := by
    funext c
    simp only [Function.comp, Text.toLower_bne (show '#'.isAlpha = false by decide),
      Text.toLower_bne (show ';'.isAlpha = false by decide)]
  rw [significantPart, List.takeWhile_map, hcomment, Text.trim_map_toLower, significantPart]

/-- A line in lower case has the instruction of the line in lower case, and a bad label exactly if
the line has one. -/
theorem instructionOf_map_toLower (line : List Char) :
    instructionOf (line.map Char.toLower) = (instructionOf line).map Char.toLower ∧
      (HasBadLabel (line.map Char.toLower) ↔ HasBadLabel line) := by
  by_cases hm : ':' ∈ significantPart line
  case neg =>
    have hm' : ':' ∉ significantPart (line.map Char.toLower) := by
      rwa [significantPart_map_toLower, colon_mem_map_toLower]
    obtain ⟨-, hi, hb⟩ := line_of_no_colon hm
    obtain ⟨-, hi', hb'⟩ := line_of_no_colon hm'
    exact ⟨by rw [hi, hi', significantPart_map_toLower], iff_of_false hb' hb⟩
  case pos =>
    obtain ⟨front, rest, hs, hf⟩ := List.eq_append_cons_of_mem hm
    have hs' : significantPart (line.map Char.toLower) =
        front.map Char.toLower ++ ':' :: rest.map Char.toLower := by
      rw [significantPart_map_toLower, hs, List.map_append, List.map_cons]
      rfl
    obtain ⟨-, hi, hb⟩ := line_of_colon hs hf
    obtain ⟨-, hi', hb'⟩ := line_of_colon hs' (mt colon_mem_map_toLower.1 hf)
    refine ⟨by rw [hi, hi', Text.trim_map_toLower], ?_⟩
    rw [hb, hb', Text.trim_map_toLower, isLabelName_map_toLower, colon_mem_map_toLower]

end

/-! ### What one line may change -/

/-- The second line may stand for the first: it defines the same label, and its instruction is
encoded as every word that the instruction of the first is encoded as. -/
structure StandsIn (line other : List Char) : Prop where
  /-- The label is no worse. -/
  good : HasBadLabel other → HasBadLabel line
  /-- The label is the same. -/
  label : labelOf? other = labelOf? line
  /-- There is an instruction on both lines or on neither. -/
  empty : (instructionOf other).isEmpty = (instructionOf line).isEmpty
  /-- What is encoded stays encoded. -/
  encode : ∀ (site : Site) (encoded : Encoded),
    site.encode (tokensOf (instructionOf line)) = .ok encoded →
      site.encode (tokensOf (instructionOf other)) = .ok encoded

/-- A line may stand for itself. -/
theorem StandsIn.refl (line : List Char) : StandsIn line line :=
  ⟨id, rfl, rfl, fun _ _ h => h⟩

/-- What is encoded does not depend on the case of the mnemonic. -/
theorem Site.encode_recased {site : Site} {tokens others : List String} {encoded : Encoded}
    (hl : others.map String.toLower = tokens.map String.toLower) (ht : others.tail = tokens.tail)
    (h : site.encode tokens = .ok encoded) : site.encode others = .ok encoded := by
  cases tokens with
  | nil => cases h
  | cons first operands =>
    cases others with
    | nil => cases hl
    | cons first' operands' =>
      obtain ⟨hfirst, -⟩ := List.cons.inj hl
      obtain rfl : operands' = operands := ht
      rw [encode] at h ⊢
      rw [hfirst]
      cases ho : Op.named? first.toLower with
      | none =>
        rw [ho] at h
        cases h
      | some op => rwa [ho] at h

/-- A line with its mnemonic in another case may stand for the line. -/
theorem Recased.standsIn {line other : List Char} (h : Recased line other) :
    StandsIn line other := by
  obtain ⟨hi, hb⟩ := instructionOf_map_toLower line
  obtain ⟨hi', hb'⟩ := instructionOf_map_toLower other
  rw [h.text] at hi' hb'
  have hsame := hi'.symm.trans hi
  refine ⟨fun hbad => hb.1 (hb'.2 hbad), h.label, ?_, fun site encoded => ?_⟩
  · have hempty := congrArg List.isEmpty hsame
    rwa [List.isEmpty_map, List.isEmpty_map] at hempty
  · refine Site.encode_recased ?_ h.operands
    rw [← tokensOf_map_toLower, ← tokensOf_map_toLower, hsame]

/-- Two lines say what one line says: the former its label, the latter its instruction. -/
structure SplitsInto (line first second : List Char) : Prop where
  /-- The label of the first line is no worse. -/
  good : ¬ HasBadLabel line → ¬ HasBadLabel first
  /-- The first line has the label. -/
  label : labelOf? first = labelOf? line
  /-- The first line has no instruction. -/
  nothing : instructionOf first = []
  /-- The second line has no label, not even a bad one. -/
  unlabelled : labelOf? second = none ∧ ¬ HasBadLabel second
  /-- The second line has the instruction. -/
  body : instructionOf second = instructionOf line

/-- A colon behind a text stays when the text is trimmed. -/
theorem Text.trim_append_colon (text : List Char) :
    trim (text ++ [':']) = text.dropWhile isBlank ++ [':'] := by
  have hcolon : ¬ isBlank ':' = true := by decide
  have hdrop : (text ++ [':']).dropWhile isBlank = text.dropWhile isBlank ++ [':'] := by
    rw [List.dropWhile_append]
    split
    case isTrue he =>
      rw [List.isEmpty_iff.1 he, List.dropWhile_cons_of_neg hcolon]
      rfl
    case isFalse => rfl
  rw [trim, hdrop, List.reverse_append, List.reverse_singleton, List.singleton_append,
    List.dropWhile_cons_of_neg hcolon, List.reverse_cons, List.reverse_reverse]

/-- A significant line with one colon is split behind the colon. -/
theorem splitsInto_of_colon {name rest : List Char}
    (hs : significantPart (name ++ ':' :: rest) = name ++ ':' :: rest) (hn : ':' ∉ name)
    (hr : ':' ∉ rest) : SplitsInto (name ++ ':' :: rest) (name ++ [':']) rest := by
  have hcomment : ∀ c ∈ name ++ ':' :: rest, c ≠ '#' ∧ c ≠ ';' := fun c hc =>
    of_mem_significantPart (hs ▸ hc)
  have hfirst : significantPart (name ++ [':']) = name.dropWhile Text.isBlank ++ [':'] := by
    rw [significantPart_eq_trim, Text.trim_append_colon]
    intro c hc
    refine hcomment c ?_
    rw [List.append_cons]
    exact List.mem_append_left rest hc
  have hsecond : significantPart rest = Text.trim rest :=
    significantPart_eq_trim fun c hc =>
      hcomment c (List.mem_append_right name (List.mem_cons_of_mem ':' hc))
  obtain ⟨hlabel, hbody, hbad⟩ := line_of_colon hs hn
  obtain ⟨hlabel', hbody', hbad'⟩ := line_of_colon hfirst fun hm =>
    hn ((List.dropWhile_sublist _).mem hm)
  obtain ⟨hnone, hall, hgood⟩ := @line_of_no_colon rest fun hm => hr
    (Text.mem_of_mem_trim (hsecond ▸ hm))
  have htrim : Text.trim (name.dropWhile Text.isBlank) = Text.trim name := by
    rw [Text.trim, List.dropWhile_idempotent, Text.trim]
  rw [htrim] at hlabel' hbad'
  refine ⟨fun h hb => ?_, hlabel'.trans hlabel.symm, hbody', ⟨hnone, hgood⟩, ?_⟩
  · obtain ⟨hname, -⟩ := not_not.1 (mt hbad.2 h)
    exact hbad'.1 hb ⟨hname, List.not_mem_nil⟩
  · rw [hall, hsecond, hbody]

/-! ### What all lines may change -/

/-- Every word that the first instruction gives is given by the second. -/
def PlacedLine.Yields (line other : PlacedLine) : Prop :=
  ∀ labels word, line.Gives labels word → other.Gives labels word

/-- The second lines may stand for the first: they are lawful if the first are, define the same
labels and give the same words. -/
structure StandIn (lines others : List (List Char)) : Prop where
  /-- No rule is broken. -/
  lawful : Lawful lines → Lawful others
  /-- The labels are the same. -/
  definitions : definitions others = definitions lines
  /-- The words are the same. -/
  words : List.Forall₂ PlacedLine.Yields (instructionLines lines) (instructionLines others)

/-- Instructions with the same address and tokens give the same words. -/
theorem PlacedLine.Yields.of_eq {line other : PlacedLine} (ha : line.address = other.address)
    (ht : line.tokens = other.tokens) : line.Yields other := by
  rintro labels word ⟨encoded, he, hw⟩
  exact ⟨encoded, by rwa [← ha, ← ht], hw⟩

namespace StandIn

variable {lines others before before' : List (List Char)} {line other first second : List Char}

/-- Lines may stand for themselves. -/
theorem refl (lines : List (List Char)) : StandIn lines lines :=
  ⟨id, rfl, List.forall₂_same.2 fun _ _ _ _ h => h⟩

/-- Lines that may stand for others may stand for all that the others may stand for. -/
theorem trans {more : List (List Char)} (h : StandIn lines others) (h' : StandIn others more) :
    StandIn lines more where
  lawful hl := h'.lawful (h.lawful hl)
  definitions := h'.definitions.trans h.definitions
  words := forall₂_comp (fun _ _ _ hab hbc labels word hw => hbc labels word (hab labels word hw))
    h.words h'.words

/-- The significant lines may stand for the lines, and the lines for them. -/
theorem significant (lines : List (List Char)) :
    StandIn lines (significantLines lines) ∧ StandIn (significantLines lines) lines := by
  have hwords := instructionLines_significantLines lines
  refine ⟨⟨lawful_significantLines_iff.2, definitions_significantLines lines, ?_⟩,
    ⟨lawful_significantLines_iff.1, (definitions_significantLines lines).symm, ?_⟩⟩
  · exact (hwords.imp fun _ _ h => .of_eq h.1 h.2.1).flip
  · exact hwords.imp fun _ _ h => .of_eq h.1.symm h.2.1.symm

/-- A line may be replaced behind lines. -/
theorem append_singleton (h : StandIn before before') (hl : StandsIn line other) :
    StandIn (before ++ [line]) (before' ++ [other]) := by
  have hlength := h.words.length_eq
  refine ⟨fun hlawful => ?_, ?_, ?_⟩
  · rw [lawful_append_singleton_iff, forall_not_breaks_iff] at hlawful ⊢
    obtain ⟨hb, hbad, hnew⟩ := hlawful
    refine ⟨h.lawful hb, mt hl.good hbad, ?_⟩
    rwa [hl.label, ← map_fst_definitions, h.definitions, map_fst_definitions]
  · rw [definitions_append_singleton, definitions_append_singleton, h.definitions, hl.label,
      hlength]
  · rw [instructionLines_append_singleton, instructionLines_append_singleton, hl.empty, hlength]
    refine List.rel_append h.words ?_
    split
    case isTrue => exact .nil
    case isFalse =>
      refine .cons ?_ .nil
      rintro labels word ⟨encoded, he, hw⟩
      exact ⟨encoded, hl.encode _ encoded he, hw⟩

/-- Lines may be replaced one by one behind lines. -/
theorem append {rest rest' : List (List Char)} (h : StandIn before before')
    (hr : List.Forall₂ StandsIn rest rest') : StandIn (before ++ rest) (before' ++ rest') := by
  induction hr generalizing before before' with
  | nil => rwa [List.append_nil, List.append_nil]
  | cons hl _ ih =>
    rw [List.append_cons, List.append_cons before']
    exact ih (h.append_singleton hl)

/-- A label and an instruction may stand on two lines behind lines. -/
theorem append_split (h : StandIn before before') (hs : SplitsInto line first second) :
    StandIn (before ++ [line]) (before' ++ [first, second]) := by
  have hlength := h.words.length_eq
  have hsplit : before' ++ [first, second] = (before' ++ [first]) ++ [second] :=
    List.append_cons before' first [second]
  -- the first line has no instruction and the second no label
  have hplaced : instructionLines (before' ++ [first]) = instructionLines before' := by
    rw [instructionLines_append_singleton, hs.nothing, List.isEmpty_nil, if_pos rfl,
      List.append_nil]
  rw [hsplit]
  refine ⟨fun hlawful => ?_, ?_, ?_⟩
  · rw [lawful_append_singleton_iff, forall_not_breaks_iff] at hlawful
    obtain ⟨hb, hbad, hnew⟩ := hlawful
    have hfirst : Lawful (before' ++ [first]) := by
      refine lawful_append_singleton_iff.2 ⟨h.lawful hb, forall_not_breaks_iff.2
        ⟨hs.good hbad, ?_⟩⟩
      rwa [hs.label, ← map_fst_definitions, h.definitions, map_fst_definitions]
    refine lawful_append_singleton_iff.2 ⟨hfirst, forall_not_breaks_iff.2 ⟨hs.unlabelled.2, ?_⟩⟩
    rw [hs.unlabelled.1]
    exact fun name hn => absurd hn (Option.not_mem_none name)
  · rw [definitions_append_singleton, hs.unlabelled.1, Option.toList_none, List.map_nil,
      List.append_nil, definitions_append_singleton, definitions_append_singleton, h.definitions,
      hs.label, hlength]
  · rw [instructionLines_append_singleton (before' ++ [first]), hplaced,
      instructionLines_append_singleton, hs.body, hlength]
    refine List.rel_append h.words ?_
    split
    case isTrue => exact .nil
    case isFalse => exact .cons (.of_eq rfl rfl) .nil

end StandIn

/-! ### Rewritten significant lines -/

/-- Significant lines are their own significant lines. -/
theorem significantLines_eq_self {lines : List (List Char)}
    (h : ∀ line ∈ lines, significantPart line = line ∧ line ≠ []) :
    significantLines lines = lines := by
  have hmap : lines.map significantPart = lines :=
    (List.map_congr_left fun line hl => (h line hl).1).trans (List.map_id lines)
  rw [significantLines, hmap, List.filter_eq_self]
  exact fun line hl => by simpa using (h line hl).2

/-- The colon of a significant line without a bad label is its only one. -/
theorem colon_not_mem_of_not_hasBadLabel {line name rest : List Char}
    (hs : significantPart line = name ++ ':' :: rest) (hb : ¬ HasBadLabel line) :
    ':' ∉ name ∧ ':' ∉ rest := by
  have hm : ':' ∈ significantPart line := hs ▸ List.mem_append_right name List.mem_cons_self
  obtain ⟨front, back, hs', hf, hback, -⟩ := not_hasBadLabel_iff.1 hb hm
  have hcount := congrArg (List.count ':') (hs.symm.trans hs')
  rw [List.count_append, List.count_append, List.count_cons_self, List.count_cons_self,
    List.count_eq_zero.2 hf, List.count_eq_zero.2 hback] at hcount
  exact ⟨List.count_eq_zero.1 (by omega), List.count_eq_zero.1 (by omega)⟩

/-- Lawful significant lines may be rewritten. -/
theorem Rewritten.standIn {lines others : List (List Char)} (h : Rewritten lines others)
    (hs : ∀ line ∈ lines, significantPart line = line ∧ line ≠ []) (hl : Lawful lines) :
    StandIn lines others := by
  cases h with
  | split before name rest after =>
    have hline := (hs _ (List.mem_append_right before List.mem_cons_self)).1
    have hgood := (forall_not_breaks_iff.1 (hl before _ after rfl)).1
    obtain ⟨hname, hrest⟩ := colon_not_mem_of_not_hasBadLabel hline hgood
    have hsplit := (StandIn.refl before).append_split (splitsInto_of_colon hline hname hrest)
    have hlast := hsplit.append (List.forall₂_same.2 fun line (_ : line ∈ after) => .refl line)
    rw [← List.append_cons] at hlast
    refine hlast.trans ?_
    have hbefore := significantLines_eq_self fun line hm => hs line (List.mem_append_left _ hm)
    have hafter := significantLines_eq_self fun line hm =>
      hs line (List.mem_append_right before (List.mem_cons_of_mem _ hm))
    have hlines := (StandIn.significant (before ++ [name ++ [':'], rest] ++ after)).1
    rwa [significantLines_append, significantLines_append, hbefore, hafter] at hlines
  | recased h => exact (StandIn.refl []).append (h.imp fun _ _ hr => hr.standsIn)

namespace Assembly

/-- Lines that may stand for accepted ones are accepted with the same words and labels. -/
theorem Reports.of_standIn {lines others : List (List Char)} {assembly : Assembly}
    (h : StandIn lines others) (hr : Reports lines (.ok assembly)) :
    Reports others (.ok assembly) := by
  cases hr with
  | accepted hl hw hv =>
    rw [← h.definitions] at hw ⊢
    refine .accepted (h.lawful hl) ?_ hv
    exact forall₂_comp (fun _ _ _ hy hg => hy _ _ hg) h.words.flip hw

/-- The layout of a source does not matter: sources with the same significant lines come to the
same, but for the numbers of lines, and a source that is accepted gives the same words and labels
with a label on a line of its own or with mnemonics in another case. -/
theorem ofSource_of_significantLines (source other : String) :
    (significantLines (Text.lines source.toList) = significantLines (Text.lines other.toList) →
        Corresponds (significantNumbers (Text.lines source.toList))
          (significantNumbers (Text.lines other.toList)) (ofSource source) (ofSource other)) ∧
      ∀ assembly, ofSource source = .ok assembly →
        Rewritten (significantLines (Text.lines source.toList))
          (significantLines (Text.lines other.toList)) → ofSource other = .ok assembly := by
  refine ⟨corresponds_of_significantLines, fun assembly ha hr => ?_⟩
  have hreports := (ofSource_eq_iff_reports source _).1 ha
  obtain ⟨hto, -⟩ := StandIn.significant (Text.lines source.toList)
  obtain ⟨-, hfrom⟩ := StandIn.significant (Text.lines other.toList)
  have hsignificant := hreports.of_standIn hto
  have hlawful : Lawful (significantLines (Text.lines source.toList)) := by
    cases hsignificant with
    | accepted hl => exact hl
  have hrewritten := hr.standIn (fun _ hm => of_mem_significantLines hm) hlawful
  exact (ofSource_eq_iff_reports other _).2
    ((hsignificant.of_standIn hrewritten).of_standIn hfrom)

/-- A program of one branch with blank lines and comments around it, with its label on a line of its
own, and with its mnemonic in capitals. -/
theorem ofSource_of_significantLines_halt :
    ofSource "halt: beq zero, zero, halt" = .ok ⟨[Word.virtualHalt], [("halt", 0)]⟩ ∧
      Corresponds [1] [2] (ofSource "halt: beq zero, zero, halt")
        (ofSource "# end: here\r\n  halt: beq zero, zero, halt ; for: ever\r\n\r\n") ∧
      ofSource "halt:\n\tbeq zero, zero, halt" = .ok ⟨[Word.virtualHalt], [("halt", 0)]⟩ ∧
      ofSource "halt: BEQ zero, zero, halt" = .ok ⟨[Word.virtualHalt], [("halt", 0)]⟩ := by
  have hok : ofSource "halt: beq zero, zero, halt" =
      .ok ⟨[Word.virtualHalt], [("halt", 0)]⟩ := by
    decide +kernel
  have hsame := (ofSource_of_significantLines "halt: beq zero, zero, halt"
    "# end: here\r\n  halt: beq zero, zero, halt ; for: ever\r\n\r\n").1 (by decide +kernel)
  have hn : significantNumbers (Text.lines "halt: beq zero, zero, halt".toList) = [1] := by
    decide +kernel
  have ho : significantNumbers (Text.lines
      "# end: here\r\n  halt: beq zero, zero, halt ; for: ever\r\n\r\n".toList) = [2] := by
    decide +kernel
  rw [hn, ho] at hsame
  have hlines : significantLines (Text.lines "halt: beq zero, zero, halt".toList) =
      ["halt: beq zero, zero, halt".toList] := by
    decide +kernel
  have hsplit : significantLines (Text.lines "halt:\n\tbeq zero, zero, halt".toList) =
      significantLines ["halt:".toList, " beq zero, zero, halt".toList] := by
    decide +kernel
  have hcapitals : significantLines (Text.lines "halt: BEQ zero, zero, halt".toList) =
      ["halt: BEQ zero, zero, halt".toList] := by
    decide +kernel
  refine ⟨hok, hsame, (ofSource_of_significantLines _ _).2 _ hok ?_,
    (ofSource_of_significantLines _ _).2 _ hok ?_⟩
  · rw [hlines, hsplit]
    exact .split [] "halt".toList " beq zero, zero, halt".toList []
  · rw [hlines, hcapitals]
    exact .recased (.cons ⟨by decide +kernel, by decide +kernel, by decide +kernel⟩ .nil)

end Assembly

end MiniRisc
