import MiniRisc.Program.Text
import MiniRisc.Proofs.Lines
import MiniRisc.Proofs.Numerals
import MiniRisc.Proofs.Placement

/-!
# Programs as text

A text stores a program if each of its lines is blank or has one word, written with thirty-two
binary digits and perhaps with blanks around them. Reading accepts these texts and no others, gives
the words in the order of their lines, and otherwise names the first line that is neither. What is
written for a program is such a text and is read back as the same words.
-/

namespace MiniRisc

namespace Text

/-- A row of binary digits. -/
def IsBinary (text : List Char) : Prop := ∀ c ∈ text, c = '0' ∨ c = '1'

instance (text : List Char) : Decidable (IsBinary text) :=
  List.decidableBAll (fun c => c = '0' ∨ c = '1') text

/-- The number of a binary digit. -/
def bitValue (c : Char) : Nat := if c = '1' then 1 else 0

/-- The number that a row of binary digits denotes, most significant first: every digit counts two
to the power of the number of digits behind it. -/
def binaryValue : List Char → Nat
  | [] => 0
  | c :: rest => bitValue c * Nat.pow 2 rest.length + binaryValue rest

/-- The digits of radix two are zero and one. -/
theorem digit?_two (c : Char) :
    digit? 2 c = if c = '0' ∨ c = '1' then some (bitValue c) else none := by
  revert c
  refine char_cases (by decide +kernel) fun c hc => ?_
  have hd : ¬ (c = '0' ∨ c = '1') := by
    rintro (rfl | rfl) <;> exact absurd hc (by decide)
  rw [digit?_of_ge hc, if_neg hd]

/-- A row of binary digits denotes what its digits denote in radix two. -/
theorem binaryValue_eq (text : List Char) :
    binaryValue text = Nat.ofDigits 2 (text.map bitValue).reverse := by
  induction text with
  | nil => rfl
  | cons c rest ih =>
    rw [binaryValue, ih, List.map_cons, Nat.ofDigits_reverse_cons, List.length_map, Nat.add_comm,
      Nat.mul_comm]
    rfl

/-- A row of binary digits denotes less than two to the power of its length. -/
theorem binaryValue_lt (text : List Char) : binaryValue text < Nat.pow 2 text.length := by
  induction text with
  | nil => decide
  | cons c rest ih =>
    have hp : Nat.pow 2 (rest.length + 1) = 2 * Nat.pow 2 rest.length := Nat.mul_comm _ 2
    rw [binaryValue, List.length_cons, hp, bitValue]
    split <;> omega

/-- A row denotes a number in radix two exactly if it is one of binary digits and not empty. -/
theorem natural?_two {text : List Char} {value : Nat} :
    natural? 2 text = some value ↔ text ≠ [] ∧ IsBinary text ∧ value = binaryValue text := by
  rw [natural?_eq_some_iff digit?_two, IsBinary, binaryValue_eq]

end Text

namespace Word

/-- A text is the numeral of a word: thirty-two binary digits. -/
def IsNumeral (text : List Char) : Prop := text.length = 32 ∧ Text.IsBinary text

instance (text : List Char) : Decidable (IsNumeral text) :=
  inferInstanceAs (Decidable (text.length = 32 ∧ Text.IsBinary text))

/-- The number of a numeral is that of a word. -/
theorem IsNumeral.toNat_ofNat {text : List Char} (h : IsNumeral text) :
    (BitVec.ofNat 32 (Text.binaryValue text)).toNat = Text.binaryValue text := by
  have hlt := Text.binaryValue_lt text
  rw [h.1] at hlt
  exact Nat.mod_eq_of_lt hlt

/-- A text is read as a word exactly if it is a numeral, and then as the word with its number. -/
theorem ofBinaryDigits?_eq_some_iff {text : List Char} {word : Word} :
    ofBinaryDigits? text = some word ↔ IsNumeral text ∧ word.toNat = Text.binaryValue text := by
  rw [ofBinaryDigits?]
  split
  case isFalse hl => simp [IsNumeral, hl]
  case isTrue hl =>
    simp only [Option.map_eq_some_iff, Text.natural?_two]
    constructor
    · rintro ⟨_, ⟨-, hb, rfl⟩, rfl⟩
      exact ⟨⟨hl, hb⟩, IsNumeral.toNat_ofNat ⟨hl, hb⟩⟩
    · rintro ⟨hn, hv⟩
      exact ⟨_, ⟨List.ne_nil_of_length_eq_add_one hl, hn.2, rfl⟩,
        BitVec.eq_of_toNat_eq (hn.toNat_ofNat.trans hv.symm)⟩

/-- A text is not read as a word exactly if it is no numeral. -/
theorem ofBinaryDigits?_eq_none_iff {text : List Char} :
    ofBinaryDigits? text = none ↔ ¬ IsNumeral text := by
  rw [Option.eq_none_iff_forall_ne_some]
  constructor
  · exact fun hnone hn => hnone _ (ofBinaryDigits?_eq_some_iff.2 ⟨hn, hn.toNat_ofNat⟩)
  · exact fun hn word hword => hn (ofBinaryDigits?_eq_some_iff.1 hword).1

/-- A sign is no digit, though it leaves a number to read. -/
example : ofBinaryDigits? "+0000000000000000000000001100011".toList = none :=
  ofBinaryDigits?_eq_none_iff.2 (by decide +kernel)

/-- The digit of a bit counts the bit. -/
theorem bitValue_getMsbD (word : Word) {place : Nat} (h : place < 32) :
    Text.bitValue (if word.getMsbD (31 - place) then '1' else '0') =
      word.toNat / Nat.pow 2 place % 2 := by
  have hback : 31 - (31 - place) = place := by omega
  have hbit : word.getMsbD (31 - place) = decide (word.toNat / Nat.pow 2 place % 2 = 1) := by
    rw [BitVec.getMsbD_eq_getLsbD, hback, ← BitVec.testBit_toNat,
      Nat.testBit_eq_decide_div_mod_eq, decide_eq_true (by omega), Bool.true_and]
    rfl
  rw [hbit]
  split
  case isTrue ho => exact (of_decide_eq_true ho).symm
  case isFalse hz =>
    have hne := of_decide_eq_false (Bool.eq_false_iff.2 hz)
    have hz : Text.bitValue '0' = 0 := rfl
    omega

/-- The last digits of a numeral denote the word modulo two to the power of their number. -/
theorem binaryValue_lastDigits (word : Word) {count : Nat} (h : count ≤ 32) :
    Text.binaryValue ((List.range' (32 - count) count).map
      fun place => if word.getMsbD place then '1' else '0') = word.toNat % Nat.pow 2 count := by
  induction count with
  | zero => exact (Nat.mod_one _).symm
  | succ count ih =>
    have hfirst : 32 - (count + 1) = 31 - count := by omega
    have hnext : 31 - count + 1 = 32 - count := by omega
    have hmod : word.toNat % Nat.pow 2 (count + 1) =
        word.toNat % Nat.pow 2 count + Nat.pow 2 count * (word.toNat / Nat.pow 2 count % 2) :=
      Nat.mod_pow_succ
    rw [hfirst, List.range'_succ, hnext, List.map_cons, Text.binaryValue, ih (by omega),
      bitValue_getMsbD word (by omega), List.length_map, List.length_range', hmod, Nat.add_comm,
      Nat.mul_comm]

/-- The numeral that is written for a word denotes it. -/
theorem binaryValue_binaryDigits (word : Word) :
    Text.binaryValue word.binaryDigits = word.toNat := by
  rw [binaryDigits, List.range_eq_range']
  exact (binaryValue_lastDigits word (Nat.le_refl 32)).trans (Nat.mod_eq_of_lt word.isLt)

/-- The numerals that are written for words denote them. -/
theorem map_binaryValue_binaryDigits (words : List Word) :
    (words.map binaryDigits).map Text.binaryValue = words.map BitVec.toNat := by
  induction words with
  | nil => rfl
  | cons word rest ih =>
    rw [List.map_cons, List.map_cons, ih, binaryValue_binaryDigits, List.map_cons]

/-- What is written for a word is a numeral. -/
theorem isNumeral_binaryDigits (word : Word) : IsNumeral word.binaryDigits := by
  refine ⟨length_binaryDigits word, fun c hc => ?_⟩
  obtain ⟨place, -, rfl⟩ := List.mem_map.1 hc
  split
  case isTrue => exact .inr rfl
  case isFalse => exact .inl rfl

/-- A numeral is solid. -/
theorem IsNumeral.solid {text : List Char} (h : IsNumeral text) : Text.Solid text := by
  refine ⟨List.ne_nil_of_length_eq_add_one h.1, fun c hc => ?_⟩
  rcases h.2 c hc with rfl | rfl <;> rfl

/-- Nothing is trimmed off what is written for a word. -/
theorem trim_binaryDigits (word : Word) : Text.trim word.binaryDigits = word.binaryDigits :=
  (Text.Neat.of_solid word.isNumeral_binaryDigits.solid).trim_eq

end Word

namespace Program

/-- A line of a program text: blank, or a word with blanks around it. -/
def IsLine (line : List Char) : Prop := Text.trim line = [] ∨ Word.IsNumeral (Text.trim line)

/-- What lines hold besides blanks: the trimmed lines without the empty ones. -/
def contents (lines : List (List Char)) : List (List Char) :=
  (lines.map Text.trim).filter (!·.isEmpty)

/-- A blank line holds nothing. -/
theorem contents_cons_blank {line : List Char} (h : Text.trim line = [])
    (rest : List (List Char)) : contents (line :: rest) = contents rest := by
  simp only [contents, List.map_cons, h, List.filter_cons, List.isEmpty_nil, Bool.not_true,
    Bool.false_eq_true, if_false]

/-- A line that is not blank holds itself. -/
theorem contents_cons {line : List Char} (h : Text.trim line ≠ []) (rest : List (List Char)) :
    contents (line :: rest) = Text.trim line :: contents rest := by
  simp only [contents, List.map_cons, List.filter_cons, List.isEmpty_eq_false_iff.2 h,
    Bool.not_false, if_true]

/-- A blank line is skipped. -/
theorem wordsOfLines_cons_blank (number : Nat) {line : List Char} (h : Text.trim line = [])
    (rest : List (List Char)) :
    wordsOfLines number (line :: rest) = wordsOfLines (number + 1) rest := by
  simp only [wordsOfLines, h, List.isEmpty_nil, if_true]

/-- A line with a word gives the word before those of the lines that follow. -/
theorem wordsOfLines_cons_word (number : Nat) {line : List Char} {word : Word}
    (h : Word.ofBinaryDigits? (Text.trim line) = some word) (rest : List (List Char)) :
    wordsOfLines number (line :: rest) = (wordsOfLines (number + 1) rest).map (word :: ·) := by
  have hn := (Word.ofBinaryDigits?_eq_some_iff.1 h).1
  simp only [wordsOfLines, List.isEmpty_eq_false_iff.2 hn.solid.1, Bool.false_eq_true, if_false, h]

/-- A line that is neither is reported. -/
theorem wordsOfLines_cons_bad (number : Nat) {line : List Char} (h : ¬ IsLine line)
    (rest : List (List Char)) :
    wordsOfLines number (line :: rest) =
      .error ⟨number, String.ofList (Text.trim line)⟩ := by
  obtain ⟨hne, hn⟩ := not_or.1 h
  simp only [wordsOfLines, List.isEmpty_eq_false_iff.2 hne, Bool.false_eq_true, if_false,
    Word.ofBinaryDigits?_eq_none_iff.2 hn]

/-- Lines are accepted exactly if each is one of a program text, and give the words that they hold
in their order. -/
theorem wordsOfLines_eq_ok_iff {number : Nat} {lines : List (List Char)} {words : List Word} :
    wordsOfLines number lines = .ok words ↔
      (∀ line ∈ lines, IsLine line) ∧
        words.map BitVec.toNat = (contents lines).map Text.binaryValue := by
  induction lines generalizing number words with
  | nil => cases words <;> simp [wordsOfLines, contents]
  | cons line rest ih =>
    rw [List.forall_mem_cons]
    by_cases hb : Text.trim line = []
    case pos =>
      have hline : IsLine line := .inl hb
      rw [wordsOfLines_cons_blank number hb, contents_cons_blank hb, ih]
      simp only [hline, true_and]
    case neg =>
      cases hw : Word.ofBinaryDigits? (Text.trim line) with
      | none =>
        have hline : ¬ IsLine line := not_or.2 ⟨hb, Word.ofBinaryDigits?_eq_none_iff.1 hw⟩
        rw [wordsOfLines_cons_bad number hline]
        simp only [hline, false_and, reduceCtorEq]
      | some word =>
        obtain ⟨hn, hv⟩ := Word.ofBinaryDigits?_eq_some_iff.1 hw
        have hline : IsLine line := .inr hn
        rw [wordsOfLines_cons_word number hw, contents_cons hb, map_eq_ok, List.map_cons, ← hv]
        simp only [ih, hline, true_and]
        constructor
        · rintro ⟨words, ⟨hlines, hwords⟩, rfl⟩
          exact ⟨hlines, List.map_cons.trans (congrArg (word.toNat :: ·) hwords)⟩
        · rintro ⟨hlines, hwords⟩
          obtain ⟨first, words, rfl, hfirst, hrest⟩ := List.map_eq_cons_iff.1 hwords
          obtain rfl := BitVec.eq_of_toNat_eq hfirst
          exact ⟨words, ⟨hlines, hrest⟩, rfl⟩

/-- A line of a program text is not the one that is reported. -/
theorem wordsOfLines_cons_eq_error_iff {number : Nat} {line : List Char} (h : IsLine line)
    {rest : List (List Char)} {error : ProgramError} :
    wordsOfLines number (line :: rest) = .error error ↔
      wordsOfLines (number + 1) rest = .error error := by
  rcases h with hb | hn
  · rw [wordsOfLines_cons_blank number hb]
  · obtain ⟨word, hw⟩ : ∃ word, Word.ofBinaryDigits? (Text.trim line) = some word :=
      ⟨_, Word.ofBinaryDigits?_eq_some_iff.2 ⟨hn, hn.toNat_ofNat⟩⟩
    rw [wordsOfLines_cons_word number hw]
    cases wordsOfLines (number + 1) rest <;> simp [Except.map]

/-- Lines are refused exactly if one of them is not of a program text, and the first such line is
reported with its number. -/
theorem wordsOfLines_eq_error_iff {number : Nat} {lines : List (List Char)}
    {error : ProgramError} :
    wordsOfLines number lines = .error error ↔
      ∃ before line after, lines = before ++ line :: after ∧ (∀ other ∈ before, IsLine other) ∧
        ¬ IsLine line ∧ error = ⟨number + before.length, String.ofList (Text.trim line)⟩ := by
  induction lines generalizing number with
  | nil => simp [wordsOfLines]
  | cons first rest ih =>
    by_cases hl : IsLine first
    case neg =>
      rw [wordsOfLines_cons_bad number hl, Except.error.injEq]
      constructor
      · rintro rfl
        exact ⟨[], first, rest, rfl, List.forall_mem_nil _, hl, rfl⟩
      · rintro ⟨before, line, after, hsplit, hbefore, -, rfl⟩
        cases before with
        | nil =>
          obtain ⟨rfl, rfl⟩ := List.cons.inj hsplit
          rfl
        | cons other before =>
          obtain ⟨rfl, rfl⟩ := List.cons.inj hsplit
          exact absurd (hbefore _ List.mem_cons_self) hl
    case pos =>
      rw [wordsOfLines_cons_eq_error_iff hl, ih]
      have hnumber : ∀ before : List (List Char),
          number + 1 + before.length = number + (first :: before).length := fun before => by
        rw [List.length_cons]
        omega
      constructor
      · rintro ⟨before, line, after, rfl, hbefore, hline, rfl⟩
        exact ⟨first :: before, line, after, rfl, List.forall_mem_cons.2 ⟨hl, hbefore⟩, hline,
          by rw [hnumber]⟩
      · rintro ⟨before, line, after, hsplit, hbefore, hline, rfl⟩
        cases before with
        | nil =>
          obtain ⟨rfl, rfl⟩ := List.cons.inj hsplit
          exact absurd hl hline
        | cons other before =>
          obtain ⟨rfl, rfl⟩ := List.cons.inj hsplit
          exact ⟨before, line, after, rfl, (List.forall_mem_cons.1 hbefore).2, hline,
            by rw [hnumber]⟩

/-- The text of a program has the numerals of its words as lines. -/
theorem lines_text (assembly : Assembly) :
    Text.lines assembly.text.toList = assembly.words.map Word.binaryDigits := by
  have hrow : ∀ word : Word, word.binary.toList = word.binaryDigits := fun word =>
    String.toList_ofList
  rw [Assembly.text, Text.lines_intercalate, List.map_map]
  · exact List.map_congr_left fun word _ => hrow word
  · intro row hr
    obtain ⟨word, -, rfl⟩ := List.mem_map.1 hr
    have hn := word.isNumeral_binaryDigits
    rw [hrow]
    exact ⟨hn.solid.1, fun hm => absurd (hn.2 _ hm) (by decide),
      fun hm => absurd (hn.2 _ hm) (by decide)⟩

/-- The numerals of words as lines hold just these numerals. -/
theorem contents_binaryDigits (words : List Word) :
    contents (words.map Word.binaryDigits) = words.map Word.binaryDigits := by
  induction words with
  | nil => rfl
  | cons word rest ih =>
    have hne : Text.trim word.binaryDigits ≠ [] := by
      rw [word.trim_binaryDigits]
      exact word.isNumeral_binaryDigits.solid.1
    rw [List.map_cons, contents_cons hne, ih, word.trim_binaryDigits]

/-- A text is read as a program exactly if its lines are read as the words. -/
theorem ofText_eq_ok_iff {text : String} {program : Program} :
    ofText text = .ok program ↔
      wordsOfLines 1 (Text.lines text.toList) = .ok program.words.toList := by
  rw [ofText, map_eq_ok]
  constructor
  · rintro ⟨words, hw, rfl⟩
    exact hw
  · exact fun hw => ⟨_, hw, rfl⟩

/-- A text is refused exactly if its lines are. -/
theorem ofText_eq_error_iff {text : String} {error : ProgramError} :
    ofText text = .error error ↔ wordsOfLines 1 (Text.lines text.toList) = .error error := by
  rw [ofText]
  cases wordsOfLines 1 (Text.lines text.toList) <;> simp [Except.map]

/-- The text of a program is read back. -/
theorem ofText_text (assembly : Assembly) : ofText assembly.text = .ok assembly.program := by
  have hwords : assembly.program.words.toList = assembly.words := rfl
  rw [ofText_eq_ok_iff, lines_text, wordsOfLines_eq_ok_iff, contents_binaryDigits, hwords]
  constructor
  · intro line hl
    obtain ⟨word, -, rfl⟩ := List.mem_map.1 hl
    rw [IsLine, word.trim_binaryDigits]
    exact .inr word.isNumeral_binaryDigits
  · exact (Word.map_binaryValue_binaryDigits assembly.words).symm

/-- What is written for a program is read back as the program. A text is read exactly if all its
lines are those of a program text, and then the program has the words that the lines hold in their
order, each with the number of its digits. Any other text is refused with the number and the
trimmed text of the first line that is not of a program text. -/
theorem ofText_iff_numerals :
    (∀ assembly : Assembly, ofText assembly.text = .ok assembly.program) ∧
      ∀ text : String,
        ((∃ program, ofText text = .ok program) ↔
          ∀ line ∈ Text.lines text.toList, IsLine line) ∧
        (∀ program, ofText text = .ok program →
          program.words.toList.map BitVec.toNat =
            (contents (Text.lines text.toList)).map Text.binaryValue) ∧
        ∀ error, ofText text = .error error ↔
          ∃ before line after, Text.lines text.toList = before ++ line :: after ∧
            (∀ other ∈ before, IsLine other) ∧ ¬ IsLine line ∧
            error = ⟨before.length + 1, String.ofList (Text.trim line)⟩ := by
  refine ⟨ofText_text, fun text => ⟨⟨?_, fun hlines => ?_⟩, ?_, fun error => ?_⟩⟩
  · rintro ⟨program, hp⟩
    exact (wordsOfLines_eq_ok_iff.1 (ofText_eq_ok_iff.1 hp)).1
  · cases hr : ofText text with
    | ok program => exact ⟨program, rfl⟩
    | error error =>
      obtain ⟨before, line, after, hsplit, -, hline, -⟩ :=
        wordsOfLines_eq_error_iff.1 (ofText_eq_error_iff.1 hr)
      have hmem : line ∈ Text.lines text.toList :=
        hsplit ▸ List.mem_append_right before List.mem_cons_self
      exact absurd (hlines line hmem) hline
  · exact fun program hp => (wordsOfLines_eq_ok_iff.1 (ofText_eq_ok_iff.1 hp)).2
  · rw [ofText_eq_error_iff, wordsOfLines_eq_error_iff]
    simp only [Nat.add_comm 1]

end Program

end MiniRisc
