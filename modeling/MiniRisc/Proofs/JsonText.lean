import MiniRisc.Json.Grammar
import MiniRisc.Proofs.Tokens

/-!
# JSON text is read back

The text of a value is a row of tokens with blanks between them. A bracket and a text between
quotation marks end by themselves; a number has to be followed by something that does not go on with
it, and what follows it is a comma, a line break or nothing. The tokens are those of the value, and
the grammar takes them apart again, so what is written is read back.
-/

namespace MiniRisc.Json

/-! ### From characters to tokens -/

/-- A text has these tokens. -/
inductive Scanned : List Char → List Token → Prop
  /-- Nothing is left. -/
  | nil : Scanned [] []
  /-- A blank is left out. -/
  | blank {c : Char} {text : List Char} {tokens : List Token} (hb : isBlank c = true)
    (h : Scanned text tokens) : Scanned (c :: text) tokens
  /-- A token is read. -/
  | token {c : Char} {front rest : List Char} {token : Token} {tokens : List Token}
    (hb : isBlank c = false) (ht : token? (c :: (front ++ rest)) = some (token, rest))
    (h : Scanned rest tokens) : Scanned (c :: (front ++ rest)) (token :: tokens)

/-- A blank at the start makes no difference. -/
theorem tokensFor_cons_of_blank {c : Char} (hb : isBlank c = true) (fuel : Nat)
    (text : List Char) : tokensFor fuel (c :: text) = tokensFor fuel text := by
  unfold tokensFor
  rw [List.dropWhile_cons_of_pos hb]

/-- A text is read as its tokens, with as much fuel as it has characters. -/
theorem Scanned.tokensFor_eq {text : List Char} {tokens : List Token} (h : Scanned text tokens)
    {fuel : Nat} (hf : text.length ≤ fuel) : tokensFor fuel text = some tokens := by
  induction h generalizing fuel with
  | nil => cases fuel <;> rfl
  | blank hb _ ih =>
    rw [tokensFor_cons_of_blank hb]
    exact ih (Nat.le_of_succ_le hf)
  | @token c front rest token tokens hb ht _ ih =>
    cases fuel with
    | zero => exact absurd hf (Nat.not_succ_le_zero _)
    | succ fuel =>
      have hstart : (c :: (front ++ rest)).dropWhile isBlank = c :: (front ++ rest) :=
        List.dropWhile_cons_of_neg (by simp [hb])
      rw [List.length_cons, List.length_append] at hf
      have hrest : rest.length ≤ fuel := by omega
      unfold tokensFor
      rw [hstart]
      simp [ht, ih hrest]

/-- What follows a number does not go on with it. -/
def Closed (rest : List Char) : Prop :=
  ∀ c ∈ rest.head?, c.isDigit = false ∧ c ≠ '.' ∧ c ≠ 'e' ∧ c ≠ 'E'

/-- A comma and the end of a line do not go on with a number. -/
theorem closed_cons {c : Char} (hc : (c == ',' || c == '\n') = true) (rest : List Char) :
    Closed (c :: rest) := by
  intro d hd
  obtain rfl := Option.some.inj hd
  rw [Bool.or_eq_true, beq_iff_eq, beq_iff_eq] at hc
  rcases hc with rfl | rfl <;> decide

/-- A text gives its tokens, whatever follows it. -/
def Marks (text : List Char) (tokens : List Token) : Prop :=
  ∀ rest more, Scanned rest more → Scanned (text ++ rest) (tokens ++ more)

/-- A text gives its tokens, if what follows does not go on with it. -/
def Scans (text : List Char) (tokens : List Token) : Prop :=
  ∀ rest more, Closed rest → Scanned rest more → Scanned (text ++ rest) (tokens ++ more)

variable {text front back : List Char} {tokens first second : List Token}

/-- What does not mind what follows can be followed by anything. -/
theorem Marks.scans (h : Marks text tokens) : Scans text tokens := fun rest more _ => h rest more

/-- Two texts in a row give their tokens in a row. -/
theorem Marks.append (hf : Marks front first) (hb : Marks back second) :
    Marks (front ++ back) (first ++ second) := by
  intro rest more h
  rw [List.append_assoc, List.append_assoc]
  exact hf _ _ (hb _ _ h)

/-- Only the second of two texts minds what follows. -/
theorem Marks.append_scans (hf : Marks front first) (hb : Scans back second) :
    Scans (front ++ back) (first ++ second) := by
  intro rest more hc h
  rw [List.append_assoc, List.append_assoc]
  exact hf _ _ (hb _ _ hc h)

/-- A text that ends before the second one does not mind what follows that. -/
theorem Scans.append_marks (hf : Scans front first) (hb : Marks back second)
    (hc : ∀ rest, Closed (back ++ rest)) : Marks (front ++ back) (first ++ second) := by
  intro rest more h
  rw [List.append_assoc, List.append_assoc]
  exact hf _ _ (hc rest) (hb _ _ h)

/-- Blanks have no token. -/
theorem marks_blanks (h : ∀ c ∈ text, isBlank c = true) : Marks text [] := by
  intro rest more hs
  induction text with
  | nil => exact hs
  | cons c text ih =>
    exact .blank (h c List.mem_cons_self) (ih fun d hd => h d (List.mem_cons_of_mem c hd))

/-- A text that is read as one token, whatever follows. -/
theorem marks_token {c : Char} {token : Token} (hb : isBlank c = false)
    (ht : ∀ rest, token? (c :: (front ++ rest)) = some (token, rest)) :
    Marks (c :: front) [token] := fun rest _ h => .token hb (ht rest) h

/-! ### Texts -/

/-- A small code is written with two hexadecimal digits. -/
theorem natural?_sixteen (code : Fin 32) :
    Text.natural? 16 ['0', '0', (code.val / 16).digitChar, (code.val % 16).digitChar] =
      some code.val := by
  revert code
  decide

/-- A character is read back from how it is written. -/
theorem textUnits_escapeChar (c : Char) (rest : List Char) :
    textUnits (escapeChar c ++ rest) =
      (textUnits rest).map fun (units, rest) => (c.toNat :: units, rest) := by
  unfold escapeChar
  split_ifs with hquote hbackslash hb hf hn hr ht hsmall
  case pos | pos | pos | pos | pos | pos | pos =>
    -- a letter after a backslash
    subst c
    cases hrest : textUnits rest <;> simp [textUnits, escaped?, hrest]
  case pos =>
    have hunit := natural?_sixteen ⟨c.toNat, hsmall⟩
    dsimp only at hunit
    simp only [List.cons_append, List.nil_append, textUnits, hunit]
    cases textUnits rest <;> rfl
  case neg =>
    rw [List.cons_append, List.nil_append, textUnits]
    case x_1 => exact hquote
    case x_2 => exact fun _ _ _ _ _ hc _ => hbackslash hc
    case x_3 => exact fun _ _ hc _ => hbackslash hc
    rw [if_neg hsmall]
    cases textUnits rest <;> rfl

/-- The code units of a text are those of its characters. -/
theorem textUnits_flatMap (text rest : List Char) :
    textUnits (text.flatMap escapeChar ++ '"' :: rest) = some (text.map Char.toNat, rest) := by
  induction text with
  | nil => rfl
  | cons c text ih =>
    rw [List.flatMap_cons, List.append_assoc, textUnits_escapeChar, ih]
    rfl

/-- No character is half of a surrogate pair. -/
theorem joinUnits_map (text : List Char) : joinUnits (text.map Char.toNat) = some text := by
  induction text with
  | nil => rfl
  | cons c text ih =>
    have hvalid : c.toNat < 0xD800 ∨ 0xDFFF < c.toNat ∧ c.toNat < 0x110000 := c.valid
    have hhigh : ¬ (0xD800 ≤ c.toNat ∧ c.toNat < 0xDC00) := by omega
    have hlow : ¬ (0xDC00 ≤ c.toNat ∧ c.toNat < 0xE000) := by omega
    rw [List.map_cons]
    unfold joinUnits
    rw [if_neg hhigh, if_neg hlow, ih, Char.ofNat_toNat]
    rfl

/-- A text between quotation marks is one token. -/
theorem marks_quote (text : String) : Marks (quote text).toList [.text (some text)] := by
  rw [quote, String.toList_ofList, List.cons_append]
  refine marks_token rfl fun rest => ?_
  rw [List.append_assoc, token?]
  simp [textUnits_flatMap, joinUnits_map]

/-! ### Numbers -/

/-- The digits of a number end where something else begins. -/
theorem digitRow?_toDigits (n : Nat) {rest : List Char} (h : Closed rest) :
    digitRow? (Nat.toDigits 10 n ++ rest) = some (Nat.toDigits 10 n, rest) := by
  have hdigits : ∀ c ∈ Nat.toDigits 10 n, c.isDigit = true := Text.isDigit_of_mem_toDigits
  have hrest : rest.takeWhile Char.isDigit = [] ∧ rest.dropWhile Char.isDigit = rest := by
    cases rest with
    | nil => exact ⟨rfl, rfl⟩
    | cons c rest => simp [(h c rfl).1]
  rw [digitRow?, List.takeWhile_append_of_pos hdigits, List.dropWhile_append_of_pos hdigits,
    hrest.1, hrest.2, List.append_nil]
  split
  case h_1 hn => exact absurd hn Nat.toDigits_ne_nil
  case h_2 => rfl

/-- No fraction follows a number that ends. -/
theorem fraction?_of_closed {rest : List Char} (h : Closed rest) :
    fraction? rest = some (false, rest) := by
  unfold fraction?
  split
  case h_1 => exact absurd rfl (h '.' rfl).2.1
  case h_2 => rfl

/-- No exponent follows a number that ends. -/
theorem exponent?_of_closed {rest : List Char} (h : Closed rest) :
    exponent? rest = some (false, rest) := by
  cases rest with
  | nil => rfl
  | cons c rest =>
    obtain ⟨-, -, he, hE⟩ := h c rfl
    unfold exponent?
    exact if_neg (not_or.2 ⟨he, hE⟩)

/-- Only zero is written with a zero in front. -/
theorem head?_toDigits {n : Nat} (h : 0 < n) : (Nat.toDigits 10 n).head? ≠ some '0' := by
  induction n using Nat.strongRecOn with
  | ind n ih =>
    rcases Nat.lt_or_ge n 10 with hn | hn
    · rw [Nat.toDigits_of_lt_base hn]
      revert h
      exact (by decide : ∀ n : Fin 10, 0 < n.val → [n.val.digitChar].head? ≠ some '0') ⟨n, hn⟩
    · have hfront := ih (n / 10) (by omega) (by omega)
      rw [Nat.toDigits_of_base_le (by decide) hn]
      obtain ⟨c, digits, hd⟩ := List.exists_cons_of_ne_nil (Nat.toDigits_ne_nil (n := n / 10))
      rw [hd] at hfront ⊢
      exact hfront

/-- A number is read back from its digits, with its sign. -/
theorem number?_toDigits (negative : Bool) {n : Nat} (hz : negative = true → n ≠ 0)
    {rest : List Char} (h : Closed rest) :
    number? negative (Nat.toDigits 10 n ++ rest) =
      some (int (if negative then -(n : Int) else n), rest) := by
  have hvalue : Text.natural? 10 (Nat.toDigits 10 n) = some n := by
    refine (Text.natural?_eq_some_iff Text.digit?_ten).2 ⟨Nat.toDigits_ne_nil, fun c hc => ?_, ?_⟩
    · exact Char.isDigit_iff_toNat.1 (Text.isDigit_of_mem_toDigits c hc)
    · exact (Text.rowValue_toDigits n).symm
  have hhead : ¬ ((Nat.toDigits 10 n).length > 1 ∧ (Nat.toDigits 10 n).head? = some '0') := by
    rintro ⟨hlength, hzero⟩
    rcases Nat.eq_zero_or_pos n with rfl | hpos
    · exact absurd hlength (by decide)
    · exact head?_toDigits hpos hzero
  rw [number?, digitRow?_toDigits n h]
  dsimp only [Option.bind_eq_bind, Option.bind_some]
  rw [if_neg hhead, fraction?_of_closed h]
  dsimp only [Option.bind_some]
  rw [exponent?_of_closed h]
  dsimp only [Option.bind_some]
  rw [hvalue]
  cases negative with
  | false => simp
  | true => simp [hz rfl]

/-- A digit starts no token but a number. -/
theorem token?_cons_of_isDigit {c : Char} (hc : c.isDigit = true) (rest : List Char) :
    token? (c :: rest) =
      (number? false (c :: rest)).map fun (value, rest) => (.atom value, rest) := by
  rw [token?]
  all_goals
    intro _ he
    cases he
    exact absurd hc (by decide)

/-- An integer is one token. -/
theorem scans_int (n : Int) : Scans (toString n).toList [.atom (int n)] := by
  intro rest more hc h
  cases n with
  | ofNat n =>
    have ht : (toString (Int.ofNat n)).toList = Nat.toDigits 10 n := Nat.toList_repr
    rw [ht]
    have hnumber := number?_toDigits false (n := n) nofun hc
    obtain ⟨c, digits, hd⟩ := List.exists_cons_of_ne_nil (Nat.toDigits_ne_nil (n := n) (b := 10))
    have hmem : c ∈ Nat.toDigits 10 n := hd ▸ List.mem_cons_self
    have hdigit : c.isDigit = true := Text.isDigit_of_mem_toDigits c hmem
    rw [hd, List.cons_append] at hnumber ⊢
    refine .token ?_ ?_ h
    · simp only [isBlank, Bool.or_eq_false_iff, beq_eq_false_iff_ne]
      refine ⟨⟨⟨?_, ?_⟩, ?_⟩, ?_⟩ <;>
        · rintro rfl
          exact absurd hdigit (by decide)
    · rw [token?_cons_of_isDigit hdigit, hnumber]
      rfl
  | negSucc n =>
    rw [Immediate.toList_toString_negSucc, List.cons_append]
    refine .token rfl ?_ h
    rw [token?, number?_toDigits true (by simp) hc]
    rfl

/-! ### Values -/

mutual

/-- The tokens of a value. -/
def tokensOf : Json → List Token
  | .null | .other => [.atom null]
  | .bool value => [.atom (bool value)]
  | .int value => [.atom (int value)]
  | .text value => [.text (some value)]
  | .list items => .openList :: ([.comma].intercalate (tokensOfItems items) ++ [.closeList])
  | .object members =>
    .openObject :: ([.comma].intercalate (tokensOfMembers members) ++ [.closeObject])

/-- The tokens of each of the values of a list. -/
def tokensOfItems : List Json → List (List Token)
  | [] => []
  | item :: rest => tokensOf item :: tokensOfItems rest

/-- The tokens of each of the members of an object. -/
def tokensOfMembers : List (String × Json) → List (List Token)
  | [] => []
  | (name, value) :: rest => (.text (some name) :: .colon :: tokensOf value) :: tokensOfMembers rest

end

/-- The end of a line and the blanks before the next one. -/
def lineBreak (level : Nat) : String := "\n" ++ String.ofList (List.replicate (2 * level) ' ')

/-- Items stand between brackets, each on a line of its own. -/
theorem bracketed_of_ne_nil {items : List String} (h : items ≠ []) (level : Nat)
    (opening closing : String) :
    bracketed level opening closing items = opening ++ (lineBreak (level + 1) ++
      (String.intercalate ("," ++ lineBreak (level + 1)) items ++
        (lineBreak level ++ closing))) := by
  cases items with
  | nil => exact absurd rfl h
  | cons =>
    simp only [← String.append_assoc]
    rfl

/-- The characters of a line break. -/
theorem toList_lineBreak (level : Nat) :
    (lineBreak level).toList = '\n' :: List.replicate (2 * level) ' ' := by
  rw [lineBreak, String.toList_append]
  exact congrArg (List.cons '\n') String.toList_ofList

/-- A line break has no token. -/
theorem marks_lineBreak (level : Nat) : Marks (lineBreak level).toList [] := by
  rw [toList_lineBreak]
  refine marks_blanks fun c hc => ?_
  rcases List.mem_cons.1 hc with rfl | hc
  · rfl
  · rw [List.eq_of_mem_replicate hc]
    rfl

/-- A comma with a line break is a token. -/
theorem marks_comma (level : Nat) : Marks ("," ++ lineBreak level).toList [.comma] := by
  have hcomma : Marks [','] [.comma] := marks_token rfl fun _ => rfl
  rw [String.toList_append]
  exact hcomma.append (marks_lineBreak level)

/-- Items between commas have commas between their tokens. -/
theorem scans_intercalate (level : Nat) {items : List String} {rows : List (List Token)}
    (h : List.Forall₂ (fun item row => Scans item.toList row) items rows) :
    Scans (String.intercalate ("," ++ lineBreak level) items).toList
      ([.comma].intercalate rows) := by
  induction h with
  | nil => exact fun rest more _ h => h
  | @cons item row items rows hitem hrest ih =>
    cases hrest with
    | nil =>
      rw [String.intercalate_singleton, List.intercalate_singleton]
      exact hitem
    | cons =>
      rw [String.intercalate_cons_cons, List.intercalate_cons_cons, String.toList_append,
        String.toList_append]
      refine (hitem.append_marks (marks_comma level) fun rest => ?_).append_scans ih
      rw [String.toList_append]
      exact closed_cons (c := ',') rfl _

/-- Items between brackets. -/
theorem marks_bracketed (level : Nat) {opening closing : String} {first last : Token}
    (hopening : Marks opening.toList [first]) (hclosing : Marks closing.toList [last])
    {items : List String} {rows : List (List Token)}
    (h : List.Forall₂ (fun item row => Scans item.toList row) items rows) :
    Marks (bracketed level opening closing items).toList
      (first :: ([.comma].intercalate rows ++ [last])) := by
  cases items with
  | nil =>
    cases h
    rw [bracketed, String.toList_append]
    exact hopening.append hclosing
  | cons item items =>
    rw [bracketed_of_ne_nil (List.cons_ne_nil item items)]
    simp only [String.toList_append]
    refine hopening.append ((marks_lineBreak (level + 1)).append ?_)
    have hrest : Marks ((lineBreak level).toList ++ closing.toList) [last] :=
      (marks_lineBreak level).append hclosing
    refine (scans_intercalate (level + 1) h).append_marks hrest fun rest => ?_
    rw [toList_lineBreak]
    exact closed_cons rfl _

mutual

/-- A value is scanned as its tokens. -/
theorem scans_prettyAt (level : Nat) :
    ∀ json : Json, Scans (prettyAt level json).toList (tokensOf json)
  | .null | .other => by
    rw [prettyAt, tokensOf]
    exact (marks_token rfl fun _ => rfl).scans
  | .bool value => by
    rw [prettyAt, tokensOf]
    cases value <;> exact (marks_token rfl fun _ => rfl).scans
  | .int value => by
    rw [prettyAt, tokensOf]
    exact scans_int value
  | .text value => by
    rw [prettyAt, tokensOf]
    exact (marks_quote value).scans
  | .list items => by
    rw [prettyAt, tokensOf]
    refine (marks_bracketed level ?_ ?_ (scans_prettyItems (level + 1) items)).scans <;>
      exact marks_token rfl fun _ => rfl
  | .object members => by
    rw [prettyAt, tokensOf]
    refine (marks_bracketed level ?_ ?_ (scans_prettyMembers (level + 1) members)).scans <;>
      exact marks_token rfl fun _ => rfl

/-- Each of the values of a list is scanned as its tokens. -/
theorem scans_prettyItems (level : Nat) : ∀ items : List Json,
    List.Forall₂ (fun item row => Scans item.toList row) (prettyItems level items)
      (tokensOfItems items)
  | [] => .nil
  | item :: rest => .cons (scans_prettyAt level item) (scans_prettyItems level rest)

/-- Each of the members of an object is scanned as its tokens. -/
theorem scans_prettyMembers (level : Nat) : ∀ members : List (String × Json),
    List.Forall₂ (fun item row => Scans item.toList row) (prettyMembers level members)
      (tokensOfMembers members)
  | [] => .nil
  | (name, value) :: rest => by
    refine .cons ?_ (scans_prettyMembers level rest)
    have hcolon : Marks [':'] [.colon] := marks_token rfl fun _ => rfl
    have hblank : Marks [' '] [] := marks_blanks fun _ hc => List.mem_singleton.1 hc ▸ rfl
    rw [String.toList_append, String.toList_append]
    exact ((marks_quote name).append (hcolon.append hblank)).append_scans
      (scans_prettyAt level value)

end

/-- A text with every item on a line of its own has the tokens of the value. -/
theorem tokens?_pretty (json : Json) : tokens? json.pretty.toList = some (tokensOf json) := by
  have hscans := scans_prettyAt 0 json [] [] nofun .nil
  rw [List.append_nil, List.append_nil] at hscans
  exact hscans.tokensFor_eq (Nat.le_refl _)

/-! ### From tokens to values -/

mutual

/-- A value as it is read back: what no reader accepts is written as `null`. -/
def legible : Json → Json
  | .null | .other => .null
  | .bool value => .bool value
  | .int value => .int value
  | .text value => .text value
  | .list items => .list (legibleItems items)
  | .object members => .object (legibleMembers members)

/-- Each of the values of a list as it is read back. -/
def legibleItems : List Json → List Json
  | [] => []
  | item :: rest => legible item :: legibleItems rest

/-- Each of the members of an object as it is read back. -/
def legibleMembers : List (String × Json) → List (String × Json)
  | [] => []
  | (name, value) :: rest => (name, legible value) :: legibleMembers rest

end

/-- Members with readable names are those of an object. -/
theorem ofMembers_map (members : List (String × Json)) :
    ofMembers (members.map fun member => (some member.1, member.2)) = object members := by
  have hmembers : (members.map fun member => (some member.1, member.2)).mapM
      (fun member : Option String × Json => member.1.map fun name => (name, member.2)) =
        some members := by
    induction members with
    | nil => rfl
    | cons member members ih =>
      rw [List.map_cons, List.mapM_cons, ih]
      rfl
  rw [ofMembers, hmembers]

/-- No value starts with a closing bracket. -/
theorem tokensOf_ne_closeList (json : Json) (rest tokens : List Token) :
    tokensOf json ++ rest ≠ .closeList :: tokens := by
  cases json <;> (rw [tokensOf]; nofun)

/-- Rows between commas start with the first row. -/
theorem intercalate_cons (row : List Token) (rows : List (List Token)) :
    ∃ back, [Token.comma].intercalate (row :: rows) = row ++ back := by
  cases rows with
  | nil => exact ⟨[], by rw [List.intercalate_singleton, List.append_nil]⟩
  | cons second rows =>
    exact ⟨_, by rw [List.intercalate_cons_cons, List.append_assoc]⟩

/-- A list that is not empty is read as its items. -/
theorem valueFor_openList (fuel : Nat) {tokens : List Token}
    (h : ∀ rest, tokens ≠ .closeList :: rest) :
    valueFor (fuel + 1) (.openList :: tokens) =
      (itemsFor fuel tokens).map fun (items, rest) => (list items, rest) := by
  rw [valueFor]
  exact h

mutual

/-- A value is read back from its tokens. -/
theorem valueFor_tokensOf : ∀ (json : Json) (fuel : Nat) (rest : List Token),
    2 * (tokensOf json).length ≤ fuel →
      valueFor fuel (tokensOf json ++ rest) = some (legible json, rest)
  | json, 0, rest, hf => by
    have hpos : 0 < (tokensOf json).length := by cases json <;> simp [tokensOf]
    omega
  | .null, fuel + 1, rest, _ | .other, fuel + 1, rest, _ | .bool _, fuel + 1, rest, _
  | .int _, fuel + 1, rest, _ | .text _, fuel + 1, rest, _ => by
    rw [tokensOf, legible]
    rfl
  | .list [], fuel + 1, rest, _ | .object [], fuel + 1, rest, _ => by rfl
  | .list (item :: items), fuel + 1, rest, hf => by
    rw [tokensOf, List.length_cons, List.length_append, List.length_singleton] at hf
    have hfirst : ∀ others, [.comma].intercalate (tokensOfItems (item :: items)) ++
        ([.closeList] ++ rest) ≠ .closeList :: others := by
      intro others
      obtain ⟨back, hback⟩ := intercalate_cons (tokensOf item) (tokensOfItems items)
      rw [tokensOfItems, hback, List.append_assoc]
      exact tokensOf_ne_closeList item _ others
    rw [tokensOf, legible, List.cons_append, List.append_assoc, valueFor_openList fuel hfirst]
    have hitems := itemsFor_tokensOf item items fuel rest (by omega)
    rw [List.singleton_append, hitems]
    rfl
  | .object (member :: members), fuel + 1, rest, hf => by
    rw [tokensOf, List.length_cons, List.length_append, List.length_singleton] at hf
    rw [tokensOf, legible, List.cons_append, List.append_assoc]
    have hmembers := membersFor_tokensOf member members fuel rest (by omega)
    rw [List.singleton_append, valueFor]
    case x =>
      obtain ⟨back, hback⟩ := intercalate_cons
        (.text (some member.1) :: .colon :: tokensOf member.2) (tokensOfMembers members)
      rw [tokensOfMembers, hback]
      nofun
    simp only [hmembers, Option.map_some, ofMembers_map]

/-- The items of a list are read back up to its closing bracket. -/
theorem itemsFor_tokensOf : ∀ (item : Json) (items : List Json) (fuel : Nat) (rest : List Token),
    2 * ([Token.comma].intercalate (tokensOfItems (item :: items))).length + 1 ≤ fuel →
      itemsFor fuel ([Token.comma].intercalate (tokensOfItems (item :: items)) ++
        .closeList :: rest) = some (legibleItems (item :: items), rest)
  | _, _, 0, _, hf => absurd hf (Nat.not_succ_le_zero _)
  | item, [], fuel + 1, rest, hf => by
    rw [tokensOfItems, tokensOfItems, List.intercalate_singleton] at hf ⊢
    have hitem := valueFor_tokensOf item fuel (.closeList :: rest) (by omega)
    rw [itemsFor, hitem]
    rfl
  | item, second :: items, fuel + 1, rest, hf => by
    rw [tokensOfItems, tokensOfItems, List.intercalate_cons_cons, ← tokensOfItems] at hf ⊢
    rw [List.length_append, List.length_append, List.length_singleton] at hf
    have hitem := valueFor_tokensOf item fuel
      (.comma :: ([Token.comma].intercalate (tokensOfItems (second :: items)) ++
        .closeList :: rest)) (by omega)
    have hitems := itemsFor_tokensOf second items fuel rest (by omega)
    rw [List.append_assoc, List.append_assoc, itemsFor, List.singleton_append, hitem]
    simp only [hitems]
    rfl

/-- The members of an object are read back up to its closing brace. -/
theorem membersFor_tokensOf : ∀ (member : String × Json) (members : List (String × Json))
    (fuel : Nat) (rest : List Token),
    2 * ([Token.comma].intercalate (tokensOfMembers (member :: members))).length + 1 ≤ fuel →
      membersFor fuel ([Token.comma].intercalate (tokensOfMembers (member :: members)) ++
        .closeObject :: rest) =
          some ((legibleMembers (member :: members)).map fun member => (some member.1, member.2),
            rest)
  | _, _, 0, _, hf => absurd hf (Nat.not_succ_le_zero _)
  | (name, value), [], fuel + 1, rest, hf => by
    rw [tokensOfMembers, tokensOfMembers, List.intercalate_singleton] at hf ⊢
    rw [List.length_cons, List.length_cons] at hf
    have hvalue := valueFor_tokensOf value fuel (.closeObject :: rest) (by omega)
    rw [List.cons_append, List.cons_append, membersFor, hvalue]
    rfl
  | (name, value), (name', value') :: members, fuel + 1, rest, hf => by
    rw [tokensOfMembers, tokensOfMembers, List.intercalate_cons_cons, ← tokensOfMembers] at hf ⊢
    rw [List.length_append, List.length_append, List.length_singleton, List.length_cons,
      List.length_cons] at hf
    have hvalue := valueFor_tokensOf value fuel
      (.comma :: ([Token.comma].intercalate (tokensOfMembers ((name', value') :: members)) ++
        .closeObject :: rest)) (by omega)
    have hmembers := membersFor_tokensOf (name', value') members fuel rest (by omega)
    rw [List.append_assoc, List.append_assoc, List.cons_append, List.cons_append, membersFor,
      List.singleton_append, hvalue]
    simp only [hmembers]
    rfl

end

/-- What is written is read back. -/
theorem parse?_pretty (json : Json) : parse? json.pretty = some json.legible := by
  have hvalue := valueFor_tokensOf json (2 * (tokensOf json).length + 1) [] (Nat.le_succ _)
  rw [List.append_nil] at hvalue
  rw [parse?, tokens?_pretty]
  simp only [hvalue]

end MiniRisc.Json
