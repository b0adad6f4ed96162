import MiniRisc.Proofs.Tokens

/-!
# Lines that are read back as they were written

A text of lines that each end with a newline has these lines. A line of a name, a colon and a
written instruction defines the name and holds the instruction, and a line of a name and a colon
holds nothing else.
-/

namespace MiniRisc

namespace Text

/-- A character of a written instruction: a solid one, a space, a comma or a parenthesis. -/
def isWritten (c : Char) : Bool := isSolid c || c == ' ' || c == ',' || c == '(' || c == ')'

/-- A text of such characters that neither begins nor ends with a blank. -/
structure Neat (text : List Char) : Prop where
  /-- All characters are those of a written instruction. -/
  written : ∀ c ∈ text, isWritten c = true
  /-- The first is not blank. -/
  first : ∃ c rest, text = c :: rest ∧ isBlank c = false
  /-- The last is not blank. -/
  last : ∃ rest c, text = rest ++ [c] ∧ isBlank c = false

/-- A solid character is one of a written instruction. -/
theorem isWritten_of_isSolid {c : Char} (h : isSolid c = true) : isWritten c = true := by
  simp only [isWritten, h, Bool.true_or]

/-- A character of a written instruction is none that means more in a line. -/
theorem ne_of_isWritten {c : Char} (h : isWritten c = true) {d : Char}
    (hd : isWritten d = false) : c ≠ d := by
  rintro rfl
  rw [h] at hd
  cases hd

/-- A neat text is on one line. -/
theorem Neat.not_mem_breaks {text : List Char} (h : Neat text) : '\n' ∉ text ∧ '\r' ∉ text :=
  ⟨fun hm => absurd (h.written _ hm) (by decide), fun hm => absurd (h.written _ hm) (by decide)⟩

/-- A solid text is neat. -/
theorem Neat.of_solid {text : List Char} (h : Solid text) : Neat text where
  written c hc := isWritten_of_isSolid (h.2 c hc)
  first := by
    obtain ⟨c, rest, rfl⟩ := List.exists_cons_of_ne_nil h.1
    exact ⟨c, rest, rfl, isBlank_of_isSolid (h.2 c List.mem_cons_self)⟩
  last := by
    have hl := List.getLast_mem h.1
    exact ⟨text.dropLast, text.getLast h.1, (List.dropLast_concat_getLast h.1).symm,
      isBlank_of_isSolid (h.2 _ hl)⟩

/-- Neat texts with characters of a written instruction between them are neat together. -/
theorem Neat.append {front back : List Char} (hf : Neat front) (hb : Neat back)
    {middle : List Char} (hm : middle.all isWritten = true) :
    Neat (front ++ middle ++ back) where
  written c hc := by
    rcases List.mem_append.1 hc with hc | hc
    · rcases List.mem_append.1 hc with hc | hc
      · exact hf.written c hc
      · exact List.all_eq_true.1 hm c hc
    · exact hb.written c hc
  first := by
    obtain ⟨c, rest, rfl, hc⟩ := hf.first
    exact ⟨c, rest ++ middle ++ back, rfl, hc⟩
  last := by
    obtain ⟨rest, c, rfl, hc⟩ := hb.last
    exact ⟨front ++ middle ++ rest, c, (List.append_assoc _ _ _).symm, hc⟩

/-- A text without blanks at its ends is trimmed. -/
theorem trim_eq_self {text : List Char} (hf : ∃ c rest, text = c :: rest ∧ isBlank c = false)
    (hl : ∃ rest c, text = rest ++ [c] ∧ isBlank c = false) : trim text = text := by
  obtain ⟨c, rest, hcons, hc⟩ := hf
  obtain ⟨front, d, hsnoc, hd⟩ := hl
  have hdrop : text.dropWhile isBlank = text := by
    rw [hcons, List.dropWhile_cons_of_neg (by simp [hc])]
  have hreverse : text.reverse.dropWhile isBlank = text.reverse := by
    rw [hsnoc, List.reverse_append, List.reverse_singleton, List.singleton_append,
      List.dropWhile_cons_of_neg (by simp [hd])]
  rw [trim, hdrop, hreverse, List.reverse_reverse]

/-- A neat text is trimmed. -/
theorem Neat.trim_eq {text : List Char} (h : Neat text) : trim text = text :=
  trim_eq_self h.first h.last

/-- A blank before a text is trimmed. -/
theorem trim_cons {c : Char} (h : isBlank c = true) (text : List Char) :
    trim (c :: text) = trim text := by
  rw [trim, List.dropWhile_cons_of_pos h, trim]

/-- A row without a carriage return loses none. -/
theorem dropReturn_eq_self {row : List Char} (h : '\r' ∉ row) : dropReturn row = row :=
  if_neg fun hl => h (List.mem_of_getLast? hl)

/-- The first line of a text ends at the first newline. -/
theorem lines_append_cons {row : List Char} (hn : '\n' ∉ row) (hr : '\r' ∉ row)
    (rest : List Char) : lines (row ++ '\n' :: rest) = row :: lines rest := by
  have hs : ∀ c ∈ row, (c == '\n') = false := fun c hc =>
    beq_eq_false_iff_ne.2 fun he => hn (he ▸ hc)
  have hp : pieces (· == '\n') (row ++ '\n' :: rest) = row :: pieces (· == '\n') rest := by
    rw [pieces_append_cons rfl, pieces_eq_singleton hs, List.singleton_append]
  rw [lines, hp, lines]
  cases hp : pieces (· == '\n') rest with
  | nil => exact absurd hp (pieces_ne_nil _ rest)
  | cons piece more => rw [linesOfPieces, dropReturn_eq_self hr]; exact List.cons_ne_nil _ _

/-- The lines of a text in which every line ends with a newline. -/
theorem lines_flatMap {rows : List (List Char)} (h : ∀ row ∈ rows, '\n' ∉ row ∧ '\r' ∉ row) :
    lines (rows.flatMap (· ++ ['\n'])) = rows := by
  induction rows with
  | nil => rfl
  | cons row rest ih =>
    obtain ⟨hn, hr⟩ := h row List.mem_cons_self
    have hrest := ih fun other ho => h other (List.mem_cons_of_mem row ho)
    rw [List.flatMap_cons, List.append_assoc, List.singleton_append, lines_append_cons hn hr,
      hrest]

/-- A row without a newline is the only line of its text if it is not empty. -/
theorem lines_eq_singleton {row : List Char} (hne : row ≠ []) (hn : '\n' ∉ row) :
    lines row = [row] := by
  have hs : ∀ c ∈ row, (c == '\n') = false := fun c hc =>
    beq_eq_false_iff_ne.2 fun he => hn (he ▸ hc)
  rw [lines, pieces_eq_singleton hs, linesOfPieces, List.isEmpty_eq_false_iff.2 hne,
    if_neg Bool.false_ne_true]

/-- The lines of a text in which a newline stands between the lines and none after the last. -/
theorem lines_intercalate {rows : List String}
    (h : ∀ row ∈ rows, row.toList ≠ [] ∧ '\n' ∉ row.toList ∧ '\r' ∉ row.toList) :
    lines (String.intercalate "\n" rows).toList = rows.map String.toList := by
  induction rows with
  | nil => rfl
  | cons first rest ih =>
    obtain ⟨hne, hn, hr⟩ := h first List.mem_cons_self
    cases rest with
    | nil => rw [String.intercalate_singleton, lines_eq_singleton hne hn, List.map_singleton]
    | cons second more =>
      have hrest := ih fun row hm => h row (List.mem_cons_of_mem first hm)
      have hs : "\n".toList = ['\n'] := rfl
      rw [String.intercalate_cons_cons, String.toList_append, String.toList_append, hs,
        List.append_assoc, List.singleton_append, lines_append_cons hn hr, hrest]
      rfl

end Text

/-- A line in which nothing starts a comment is only trimmed. -/
theorem significantPart_eq_trim {line : List Char} (hc : ∀ c ∈ line, c ≠ '#' ∧ c ≠ ';') :
    significantPart line = Text.trim line := by
  have hp : ∀ c ∈ line, (c != '#' && c != ';') = true := fun c hm => by simp [hc c hm]
  have hw : line.takeWhile (fun c => c != '#' && c != ';') = line := by
    rw [← List.append_nil line, List.takeWhile_append_of_pos hp, List.takeWhile_nil]
  rw [significantPart, hw]

/-- A line is its own significant part if nothing starts a comment and no blank is at its ends. -/
theorem significantPart_eq_self {line : List Char} (hc : ∀ c ∈ line, c ≠ '#' ∧ c ≠ ';')
    (ht : Text.trim line = line) : significantPart line = line := by
  rw [significantPart_eq_trim hc, ht]

/-- A line of a solid name, a colon and characters of a written instruction defines the name. -/
theorem Statement.ofLine_named {name rest : List Char} (hn : Text.Solid name)
    (hr : ∀ c ∈ rest, Text.isWritten c = true)
    (ht : Text.trim (name ++ ':' :: rest) = name ++ ':' :: rest) :
    Statement.ofLine (name ++ ':' :: rest) =
      .ok { label := some (String.ofList name), body := Text.trim rest } := by
  have hcolon : ∀ c ∈ name, (c != ':') = true := fun c hc =>
    bne_iff_ne.2 (Text.ne_of_isSolid (hn.2 c hc) rfl)
  have hline : ∀ c ∈ name ++ ':' :: rest, c ≠ '#' ∧ c ≠ ';' := by
    intro c hc
    rcases List.mem_append.1 hc with hc | hc
    · exact ⟨Text.ne_of_isSolid (hn.2 c hc) rfl, Text.ne_of_isSolid (hn.2 c hc) rfl⟩
    · rcases List.mem_cons.1 hc with rfl | hc
      · decide
      · exact ⟨Text.ne_of_isWritten (hr c hc) rfl, Text.ne_of_isWritten (hr c hc) rfl⟩
  have hdrop : (name ++ ':' :: rest).dropWhile (· != ':') = ':' :: rest := by
    rw [List.dropWhile_append_of_pos hcolon]
    rfl
  have htake : (name ++ ':' :: rest).takeWhile (· != ':') = name := by
    rw [List.takeWhile_append_of_pos hcolon]
    exact List.append_nil name
  have hempty : name.isEmpty = false := List.isEmpty_eq_false_iff.2 hn.1
  have hblank : name.any Text.isBlank = false :=
    List.any_eq_false.2 fun c hc => by simp [Text.isBlank_of_isSolid (hn.2 c hc)]
  have honly : rest.contains ':' = false := by
    rw [List.contains_eq_mem]
    exact decide_eq_false fun hm => Text.ne_of_isWritten (hr ':' hm) rfl rfl
  simp only [ofLine, significantPart_eq_self hline ht, hdrop, htake,
    (Text.Neat.of_solid hn).trim_eq, hempty, hblank, honly, Bool.or_self, Bool.false_eq_true,
    if_false]

/-- A line of a name and a colon defines the name and holds no instruction. -/
theorem Statement.ofLine_label {name : List Char} (h : Text.Solid name) :
    Statement.ofLine (name ++ [':']) = .ok { label := some (String.ofList name), body := [] } := by
  refine ofLine_named h (by simp) (Text.trim_eq_self ?_ ⟨name, ':', rfl, rfl⟩)
  obtain ⟨c, rest, rfl, hc⟩ := (Text.Neat.of_solid h).first
  exact ⟨c, rest ++ [':'], rfl, hc⟩

/-- A line of a name, a colon and a written instruction defines the name and holds the
instruction. -/
theorem Statement.ofLine_instruction {name body : List Char} (h : Text.Solid name)
    (hb : Text.Neat body) :
    Statement.ofLine (name ++ ':' :: ' ' :: body) =
      .ok { label := some (String.ofList name), body } := by
  have hw : ∀ c ∈ ' ' :: body, Text.isWritten c = true :=
    List.forall_mem_cons.2 ⟨rfl, hb.written⟩
  have ht : Text.trim (' ' :: body) = body := by rw [Text.trim_cons rfl, hb.trim_eq]
  rw [ofLine_named h hw (Text.trim_eq_self ?_ ?_), ht]
  · obtain ⟨c, rest, rfl, hc⟩ := (Text.Neat.of_solid h).first
    exact ⟨c, rest ++ ':' :: ' ' :: body, rfl, hc⟩
  · obtain ⟨rest, c, rfl, hc⟩ := hb.last
    exact ⟨name ++ ':' :: ' ' :: rest, c, by simp, hc⟩

/-- An operand is neat. -/
theorem Operand.neat_text (operand : Operand) : Text.Neat (operand.text none).toList := by
  cases operand with
  | register source => exact .of_solid (Register.name_spec source.register).1
  | immediate value => exact .of_solid (Text.solid_toString value.toInt)
  | memory offset base =>
    have ho : Text.Neat offset.signedDecimal.toList := .of_solid (Text.solid_toString offset.toInt)
    have hb : Text.Neat (base.text none).toList := .of_solid (Register.name_spec base.register).1
    have hc : Text.Neat [')'] :=
      ⟨List.forall_mem_singleton.2 rfl, ⟨_, _, rfl, rfl⟩, ⟨[], _, rfl, rfl⟩⟩
    have hclosed : Text.Neat ((base.text none).toList ++ [] ++ [')']) := hb.append hc rfl
    have hall : Text.Neat (offset.signedDecimal.toList ++ ['('] ++ _) := ho.append hclosed rfl
    simpa [Operand.text] using hall

/-- Neat texts in a row, with characters of a written instruction between them, are neat. -/
theorem Text.neat_intercalate {separator : String} (hs : separator.toList.all isWritten = true)
    {texts : List String} (hne : texts ≠ []) (h : ∀ text ∈ texts, Text.Neat text.toList) :
    Text.Neat (String.intercalate separator texts).toList := by
  induction texts with
  | nil => exact absurd rfl hne
  | cons first rest ih =>
    have hf := h first List.mem_cons_self
    cases rest with
    | nil => rwa [String.intercalate_singleton]
    | cons second more =>
      have hrest := ih (List.cons_ne_nil second more) fun text ht =>
        h text (List.mem_cons_of_mem first ht)
      rw [String.intercalate_cons_cons, String.toList_append, String.toList_append]
      exact hf.append hrest hs

/-- A written instruction is neat if its operands are. -/
theorem Written.neat_text {written : Written} (hm : Text.Solid written.mnemonic.toList)
    (ho : ∀ operand ∈ written.operands, Text.Neat operand.toList) :
    Text.Neat written.text.toList := by
  unfold Written.text
  split
  case h_1 => exact .of_solid hm
  case h_2 hne =>
    rw [String.toList_append, String.toList_append]
    exact (Text.Neat.of_solid hm).append (Text.neat_intercalate rfl hne ho) rfl

end MiniRisc
