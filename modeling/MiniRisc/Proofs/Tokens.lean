import MiniRisc.Assembly.Source
import MiniRisc.Instruction.Text
import MiniRisc.Proofs.Layout
import MiniRisc.Proofs.Numerals

/-!
# Texts that are read back as they were written

A solid text is one of letters, digits, hyphens and underscores. Mnemonics, register names and
numerals are solid, so each is one token wherever it stands between separators, and a number or a
register that is written as text is the one that the text stands for.
-/

namespace MiniRisc

namespace Text

/-- A letter, a digit, a hyphen or an underscore. -/
def isSolid (c : Char) : Bool :=
  c.isDigit || ('a' ≤ c && c ≤ 'z') || ('A' ≤ c && c ≤ 'Z') || c == '-' || c == '_'

/-- A text of letters, digits, hyphens and underscores that is not empty. -/
def Solid (text : List Char) : Prop := text ≠ [] ∧ ∀ c ∈ text, isSolid c = true

/-- A text is solid if it is not empty and a look at each character finds it solid. -/
theorem solid_iff {text : List Char} :
    Solid text ↔ text.isEmpty = false ∧ text.all isSolid = true := by
  rw [Solid, List.isEmpty_eq_false_iff, List.all_eq_true]

instance (text : List Char) : Decidable (Solid text) := decidable_of_iff _ solid_iff.symm

/-- A solid character has one of few codes. -/
theorem toNat_of_isSolid {c : Char} (h : isSolid c = true) :
    c.toNat = 45 ∨ c.toNat = 95 ∨ 48 ≤ c.toNat ∧ c.toNat ≤ 57 ∨ 65 ≤ c.toNat ∧ c.toNat ≤ 90 ∨
      97 ≤ c.toNat ∧ c.toNat ≤ 122 := by
  simp only [isSolid, Bool.or_eq_true, Bool.and_eq_true, decide_eq_true_eq, beq_iff_eq] at h
  rcases h with (((h | h) | h) | rfl) | rfl
  · exact .inr (.inr (.inl (Char.isDigit_iff_toNat.1 h)))
  · exact .inr (.inr (.inr (.inr h)))
  · exact .inr (.inr (.inr (.inl h)))
  · exact .inl rfl
  · exact .inr (.inl rfl)

/-- Solid characters behind a solid text leave it solid. -/
theorem Solid.append {front back : List Char} (hf : Solid front)
    (hb : ∀ c ∈ back, isSolid c = true) : Solid (front ++ back) :=
  ⟨List.append_ne_nil_of_left_ne_nil hf.1 back, List.forall_mem_append.2 ⟨hf.2, hb⟩⟩

/-- A solid character is not blank. -/
theorem isBlank_of_isSolid {c : Char} (h : isSolid c = true) : isBlank c = false := by
  have hc := toNat_of_isSolid h
  simp only [isBlank, blankRanges, List.any_cons, List.any_nil, Bool.or_false,
    Bool.or_eq_false_iff, Bool.and_eq_false_iff, decide_eq_false_iff_not]
  omega

/-- A solid character is none whose code is that of another. -/
theorem ne_of_isSolid {c : Char} (h : isSolid c = true) {d : Char} (hd : isSolid d = false) :
    c ≠ d := by
  rintro rfl
  rw [h] at hd
  cases hd

/-- A text without separators is one piece. -/
theorem pieces_eq_singleton {separator : Char → Bool} {text : List Char}
    (h : ∀ c ∈ text, separator c = false) : pieces separator text = [text] := by
  induction text with
  | nil => rfl
  | cons c rest ih =>
    have hc := h c List.mem_cons_self
    have hrest := ih fun d hd => h d (List.mem_cons_of_mem c hd)
    simp only [pieces, hc, hrest, Bool.false_eq_true, if_false, List.modifyHead_cons]

/-- The words of a text end at a blank. -/
theorem words_append_cons {c : Char} (h : isBlank c = true) (first second : List Char) :
    words (first ++ c :: second) = words first ++ words second := by
  rw [words, pieces_append_cons h, List.filter_append, words, words]

/-- A text without blanks is one word. -/
theorem words_eq_singleton {text : List Char} (hne : text ≠ [])
    (h : ∀ c ∈ text, isBlank c = false) : words text = [text] := by
  have hn : text.isEmpty = false := List.isEmpty_eq_false_iff.2 hne
  rw [words, pieces_eq_singleton h]
  simp only [List.filter_cons, hn, Bool.not_false, if_true, List.filter_nil]

/-- The pieces of a text are made of its characters. -/
theorem mem_of_mem_pieces {separator : Char → Bool} {text piece : List Char}
    (h : piece ∈ pieces separator text) : ∀ c ∈ piece, c ∈ text := by
  induction text generalizing piece with
  | nil =>
    obtain rfl := List.mem_singleton.1 h
    exact List.forall_mem_nil _
  | cons d rest ih =>
    rw [pieces] at h
    split at h
    case isTrue =>
      rcases List.mem_cons.1 h with rfl | h
      · exact List.forall_mem_nil _
      · exact fun c hc => List.mem_cons_of_mem d (ih h c hc)
    case isFalse =>
      obtain ⟨first, more, hp⟩ := List.exists_cons_of_ne_nil (pieces_ne_nil separator rest)
      rw [hp] at ih h
      rcases List.mem_cons.1 h with rfl | h
      · intro c hc
        rcases List.mem_cons.1 hc with rfl | hc
        · exact List.mem_cons_self
        · exact List.mem_cons_of_mem d (ih List.mem_cons_self c hc)
      · exact fun c hc => List.mem_cons_of_mem d (ih (List.mem_cons_of_mem first h) c hc)

/-- No piece of a text has a separator. -/
theorem not_mem_of_mem_pieces {separator : Char → Bool} {c : Char} (hs : separator c = true)
    {text piece : List Char} (h : piece ∈ pieces separator text) : c ∉ piece := by
  induction text generalizing piece with
  | nil =>
    obtain rfl := List.mem_singleton.1 h
    exact List.not_mem_nil
  | cons d rest ih =>
    rw [pieces] at h
    split at h
    case isTrue =>
      rcases List.mem_cons.1 h with rfl | h
      · exact List.not_mem_nil
      · exact ih h
    case isFalse hd =>
      obtain ⟨first, more, hp⟩ := List.exists_cons_of_ne_nil (pieces_ne_nil separator rest)
      rw [hp] at ih h
      rcases List.mem_cons.1 h with rfl | h
      · intro hc
        rcases List.mem_cons.1 hc with rfl | hc
        · exact hd hs
        · exact ih List.mem_cons_self hc
      · exact ih (List.mem_cons_of_mem first h)

/-- A text without commas and parentheses, which never stand in a token. -/
def Unbroken (text : List Char) : Prop := ∀ c ∈ text, c ≠ ',' ∧ c ≠ '(' ∧ c ≠ ')'

instance (text : List Char) : Decidable (Unbroken text) :=
  List.decidableBAll (fun c => c ≠ ',' ∧ c ≠ '(' ∧ c ≠ ')') text

end Text

/-- A token is unbroken. -/
theorem unbroken_of_mem_tokensOf {body : List Char} {token : String} (h : token ∈ tokensOf body) :
    Text.Unbroken token.toList := by
  obtain ⟨word, hw, rfl⟩ := List.mem_map.1 h
  intro c hc
  rw [String.toList_ofList] at hc
  have hm := Text.mem_of_mem_pieces (List.mem_filter.1 hw).1 c hc
  obtain ⟨hm, hclose⟩ := List.mem_filter.1 hm
  obtain ⟨d, -, rfl⟩ := List.mem_map.1 hm
  rw [bne_iff_ne] at hclose
  split
  case isTrue => decide
  case isFalse hd =>
    rw [if_neg hd] at hclose
    exact ⟨fun he => hd (.inl he), fun he => hd (.inr he), hclose⟩

/-- A text that is not empty and has no blanks is one token exactly if it is unbroken. -/
theorem tokensOf_eq_singleton_iff {text : List Char} (hne : text ≠ [])
    (hb : ∀ c ∈ text, Text.isBlank c = false) :
    tokensOf text = [String.ofList text] ↔ Text.Unbroken text := by
  constructor
  · intro h
    have hm : String.ofList text ∈ tokensOf text := h ▸ List.mem_singleton_self _
    have hu := unbroken_of_mem_tokensOf hm
    rwa [String.toList_ofList] at hu
  · intro hu
    have hm : (text.map fun c => if c = ',' ∨ c = '(' then ' ' else c) = text :=
      (List.map_congr_left fun c hc =>
        if_neg (not_or.2 ⟨(hu c hc).1, (hu c hc).2.1⟩)).trans (List.map_id text)
    have hf : text.filter (· != ')') = text :=
      List.filter_eq_self.2 fun c hc => bne_iff_ne.2 (hu c hc).2.2
    simp only [tokensOf, hm, hf, Text.words_eq_singleton hne hb, List.map_cons, List.map_nil]

/-- The tokens of a text end at a blank, at a comma and before an opening parenthesis. -/
theorem tokensOf_append_cons {c : Char} (h : Text.isBlank c = true ∨ c = ',' ∨ c = '(')
    (first second : List Char) :
    tokensOf (first ++ c :: second) = tokensOf first ++ tokensOf second := by
  have hb : Text.isBlank (if c = ',' ∨ c = '(' then ' ' else c) = true := by
    split
    case isTrue => decide
    case isFalse hc => exact h.resolve_right hc
  have hk : ((if c = ',' ∨ c = '(' then ' ' else c) != ')') = true := by
    rw [bne_iff_ne]
    intro he
    rw [he] at hb
    exact absurd hb (by decide)
  simp only [tokensOf, List.map_append, List.map_cons, List.filter_append, List.filter_cons, hk,
    if_true, Text.words_append_cons hb]

/-- A closing parenthesis vanishes. -/
theorem tokensOf_append_close (first second : List Char) :
    tokensOf (first ++ ')' :: second) = tokensOf (first ++ second) := by
  simp [tokensOf]

/-- A solid text is one token. -/
theorem tokensOf_solid {text : List Char} (h : Text.Solid text) :
    tokensOf text = [String.ofList text] := by
  refine (tokensOf_eq_singleton_iff h.1 fun c hc => Text.isBlank_of_isSolid (h.2 c hc)).2 ?_
  exact fun c hc => ⟨Text.ne_of_isSolid (h.2 c hc) rfl, Text.ne_of_isSolid (h.2 c hc) rfl,
    Text.ne_of_isSolid (h.2 c hc) rfl⟩

/-- Texts in a row with commas give the tokens of each. -/
theorem tokensOfText_intercalate (texts : List String) :
    tokensOfText (String.intercalate ", " texts) = texts.flatMap tokensOfText := by
  induction texts with
  | nil => rfl
  | cons first rest ih =>
    cases rest with
    | nil => rw [String.intercalate_singleton, List.flatMap_singleton]
    | cons second more =>
      rw [String.intercalate_cons_cons, List.flatMap_cons, ← ih]
      have hb : ∀ text, tokensOf (' ' :: text) = tokensOf text :=
        tokensOf_append_cons (.inl (by decide)) []
      have ht : ", ".toList = [',', ' '] := rfl
      rw [tokensOfText, String.toList_append, String.toList_append, List.append_assoc, ht,
        List.cons_append, tokensOf_append_cons (.inr (.inl rfl)), List.cons_append, hb]
      rfl

namespace Text

/-- The digits of a decimal numeral are decimal digits. -/
theorem isDigit_of_mem_toDigits {n : Nat} : ∀ c ∈ Nat.toDigits 10 n, c.isDigit = true :=
  fun _ hc => Nat.isDigit_of_mem_toDigits (by decide) (by decide) hc

/-- A decimal digit denotes the distance of its code from that of zero. -/
theorem digitValue_of_decimal :
    ∀ c, IsDecimal c → digitValue c = c.toNat - '0'.toNat := by
  refine char_cases (by decide +kernel) fun c hc hd => ?_
  exact absurd (Nat.le_trans hc hd.2) (by decide)

/-- The decimal digits of a natural number denote it. -/
theorem rowValue_toDigits (n : Nat) : rowValue 10 (Nat.toDigits 10 n) = n := by
  have hvalues : (Nat.toDigits 10 n).map digitValue =
      (Nat.toDigits 10 n).map fun c => c.toNat - '0'.toNat :=
    List.map_congr_left fun c hc =>
      digitValue_of_decimal c (Char.isDigit_iff_toNat.1 (isDigit_of_mem_toDigits c hc))
  rw [rowValue, hvalues, ← ofDigits_eq, ofDigits, List.foldl_map, ← Nat.ofDigitChars_eq_foldl,
    Nat.ofDigitChars_ten_toDigits]

end Text

namespace Immediate

/-- The decimal digits of a natural number are a numeral that denotes it. -/
theorem magnitude_toDigits (n : Nat) : Magnitude (Nat.toDigits 10 n) n := by
  have hdigits : ∀ c ∈ Nat.toDigits 10 n, Text.IsDecimal c := fun c hc =>
    Char.isDigit_iff_toNat.1 (Text.isDigit_of_mem_toDigits c hc)
  have h := Magnitude.decimal Nat.toDigits_ne_nil hdigits
  rwa [Text.rowValue_toDigits] at h

/-- The decimal numeral of a negative integer has a sign before the digits. -/
theorem toList_toString_negSucc (n : Nat) :
    (toString (Int.negSucc n)).toList = '-' :: Nat.toDigits 10 (n + 1) := by
  refine String.toList_append.trans ?_
  rw [Nat.toList_repr]
  rfl

/-- The decimal numeral of an integer denotes it. -/
theorem numeral_toString (n : Int) : Numeral (toString n).toList n := by
  cases n with
  | ofNat n =>
    have ht : (toString (Int.ofNat n)).toList = Nat.toDigits 10 n := Nat.toList_repr
    rw [ht]
    exact .unsigned (magnitude_toDigits n)
  | negSucc n =>
    rw [toList_toString_negSucc]
    exact .minus (magnitude_toDigits (n + 1))

/-- A written integer of 64 bits is read back. -/
theorem ofToken?_toString {n : Int} (hl : least ≤ n) (hg : n ≤ greatest) :
    ofToken? (toString n) = some (.value n) := by
  rw [ofToken?_of_numeral (numeral_toString n), ofInt, if_neg (by omega), if_neg (by omega)]

/-- A word that is written with its sign is read back. -/
theorem ofToken?_signedDecimal (word : Word) :
    ofToken? word.signedDecimal = some (.value word.toInt) := by
  have hf : Signed.Fits 64 word.toInt := Format.fits_toInt (by decide) word
  exact ofToken?_toString hf.1 (Int.le_sub_one_of_lt hf.2)

end Immediate

/-- A decimal digit is solid. -/
theorem Text.isSolid_of_isDigit {c : Char} (h : c.isDigit = true) : Text.isSolid c = true := by
  simp only [Text.isSolid, h, Bool.true_or]

/-- The decimal numeral of an integer is solid. -/
theorem Text.solid_toString (n : Int) : Text.Solid (toString n).toList := by
  have hd : ∀ m, ∀ c ∈ Nat.toDigits 10 m, Text.isSolid c = true := fun m c hc =>
    Text.isSolid_of_isDigit (Text.isDigit_of_mem_toDigits c hc)
  cases n with
  | ofNat n =>
    have ht : (toString (Int.ofNat n)).toList = Nat.toDigits 10 n := Nat.toList_repr
    rw [ht]
    exact ⟨Nat.toDigits_ne_nil, hd n⟩
  | negSucc n =>
    rw [Immediate.toList_toString_negSucc]
    have hm : Text.Solid ['-'] := by decide
    exact hm.append (hd (n + 1))

namespace Register

/-- The name of a register is solid and names the register of the same low five bits. -/
theorem name_spec (register : Byte) : Text.Solid (name register).toList ∧
    ofName? (name register) = some (BitVec.ofNat 8 (index register).val) := by
  have hall : ∀ place : Fin 32, Text.Solid names[place.val].toList ∧
      ofName? names[place.val] = some (BitVec.ofNat 8 place.val) := by decide +kernel
  exact hall (index register)

/-- A register of five bits is read back from its name. -/
theorem ofName?_name {register : Byte} (h : register.toNat < 32) :
    ofName? (name register) = some register := by
  have hi : (index register).val = register.toNat := Nat.mod_eq_of_lt h
  rw [(name_spec register).2, hi, BitVec.ofNat_toNat, BitVec.setWidth_eq]

end Register

/-- A mnemonic is solid, and is its own form in lower case. -/
theorem Op.mnemonic_spec (op : Op) :
    Text.Solid op.mnemonic.toList ∧ op.mnemonic.toLower = op.mnemonic := by
  cases op <;> decide +kernel

/-- A solid text is its own only token. -/
theorem tokensOfText_solid {text : String} (h : Text.Solid text.toList) :
    tokensOfText text = [text] := by
  rw [tokensOfText, tokensOf_solid h, String.ofList_toList]

/-- The tokens of a written instruction are its mnemonic and the tokens of its operands. -/
theorem Written.tokensOfText_text {written : Written} (h : Text.Solid written.mnemonic.toList) :
    tokensOfText written.text =
      written.mnemonic :: written.operands.flatMap tokensOfText := by
  unfold Written.text
  split
  case h_1 hn => rw [hn, tokensOfText_solid h, List.flatMap_nil]
  case h_2 =>
    have hs : " ".toList = [' '] := rfl
    rw [← tokensOfText_intercalate, ← List.singleton_append, ← tokensOfText_solid h, tokensOfText,
      String.toList_append, String.toList_append, hs, List.append_assoc, List.singleton_append,
      tokensOf_append_cons (.inl (by decide))]
    rfl

namespace Instruction

/-- The token of an instruction in a slot. -/
def token (instruction : Instruction) : Slot → String
  | .imm => instruction.imm.signedDecimal
  | slot => Register.name (instruction.registerAt slot).register

/-- The name of a register is one token. -/
theorem tokensOfText_register (operand : RegisterOperand) :
    tokensOfText (operand.text none) = [Register.name operand.register] :=
  tokensOfText_solid (Register.name_spec operand.register).1

/-- A number is one token. -/
theorem tokensOfText_signedDecimal (value : Word) :
    tokensOfText value.signedDecimal = [value.signedDecimal] :=
  tokensOfText_solid (Text.solid_toString value.toInt)

/-- A memory operand is two tokens. -/
theorem tokensOfText_memory (offset : Word) (base : RegisterOperand) :
    tokensOfText ((Operand.memory offset base).text none) =
      [offset.signedDecimal, Register.name base.register] := by
  have ho : "(".toList = ['('] := rfl
  have hc : ")".toList = [')'] := rfl
  simp only [Operand.text, tokensOfText, String.toList_append, ho, hc, List.append_assoc,
    List.cons_append, List.nil_append]
  have hs : tokensOf offset.signedDecimal.toList = _ := tokensOfText_signedDecimal offset
  have hb : tokensOf (base.text none).toList = _ := tokensOfText_register base
  rw [tokensOf_append_cons (.inr (.inr rfl)), tokensOf_append_close, List.append_nil, hs, hb]
  rfl

/-- The operands in a row of slots have one token for every slot. -/
theorem flatMap_operandsIn (instruction : Instruction) (slots : List Slot) :
    (instruction.operandsIn slots).flatMap (fun operand => tokensOfText (operand.text none)) =
      slots.map instruction.token := by
  fun_induction instruction.operandsIn slots with
  | case1 => rfl
  | case2 slots ih =>
    rw [List.flatMap_cons, ih, tokensOfText_memory]
    rfl
  | case3 slots _ ih =>
    rw [List.flatMap_cons, ih]
    exact congrArg (· ++ _) (tokensOfText_signedDecimal instruction.imm)
  | case4 slot slots _ hn ih =>
    rw [List.flatMap_cons, ih]
    refine (congrArg (· ++ _) (tokensOfText_register _)).trans ?_
    cases slot
    case imm => exact absurd rfl hn
    all_goals rfl

/-- The tokens of the text of an instruction are its mnemonic and one token for every slot. -/
theorem tokensOfText_text (instruction : Instruction) :
    tokensOfText instruction.text = instruction.op.mnemonic ::
      (instruction.op.slotsIn instruction.format).map instruction.token := by
  rw [text, Written.tokensOfText_text (Op.mnemonic_spec instruction.op).1, written,
    List.flatMap_map, operands, flatMap_operandsIn]

end Instruction

end MiniRisc
