import Mathlib.Data.Nat.Digits.Defs
import MiniRisc.Assembly.Immediate

/-!
# What numerals denote

A numeral is a row of decimal digits, or a row of hexadecimal digits behind `0x` or `0X`, with at
most one sign before it. It denotes an integer of any size. A token is read as a number exactly if
it is a numeral; the integer is kept if it has 64 bits, and otherwise the limit that it passes.
-/

namespace MiniRisc

namespace Text

/-- A decimal digit. -/
def IsDecimal (c : Char) : Prop := '0' ≤ c ∧ c ≤ '9'

/-- A hexadecimal digit, in either case. -/
def IsHexadecimal (c : Char) : Prop := IsDecimal c ∨ ('a' ≤ c ∧ c ≤ 'f') ∨ ('A' ≤ c ∧ c ≤ 'F')

instance (c : Char) : Decidable (IsDecimal c) := inferInstanceAs (Decidable (_ ∧ _))

instance (c : Char) : Decidable (IsHexadecimal c) := inferInstanceAs (Decidable (_ ∨ _ ∨ _))

-- a row is looked at digit by digit, not all characters one after the other
instance (text : List Char) : Decidable (∀ c ∈ text, IsDecimal c) :=
  List.decidableBAll IsDecimal text

instance (text : List Char) : Decidable (∀ c ∈ text, IsHexadecimal c) :=
  List.decidableBAll IsHexadecimal text

/-- The number of a digit is its place among the sixteen. -/
def digitValue (c : Char) : Nat := "0123456789abcdef".toList.idxOf c.toLower

/-- The number that digits denote, most significant first. -/
def rowValue (radix : Nat) (text : List Char) : Nat :=
  Nat.ofDigits radix (text.map digitValue).reverse

/-- A fact about all characters holds if it holds of those of ASCII and of those beyond. -/
theorem char_cases {P : Char → Prop} (hl : ∀ code : Fin 128, P (Char.ofNat code))
    (hg : ∀ c : Char, 128 ≤ c.toNat → P c) : ∀ c, P c := by
  intro c
  rcases Nat.lt_or_ge c.toNat 128 with hc | hc
  · have h := hl ⟨c.toNat, hc⟩
    rwa [Char.ofNat_toNat] at h
  · exact hg c hc

/-- A character beyond ASCII is no digit. -/
theorem digit?_of_ge {radix : Nat} {c : Char} (h : 128 ≤ c.toNat) : digit? radix c = none := by
  have hle : ∀ d : Char, d.toNat < 128 → ¬ c ≤ d := fun d hd hc =>
    absurd (Nat.le_trans h hc) (Nat.not_le_of_lt hd)
  have hnine := hle '9' (by decide)
  have hsmall := hle 'z' (by decide)
  have hcapital := hle 'Z' (by decide)
  simp only [digit?, hnine, hsmall, hcapital, and_false, if_false, Option.filter_none]

/-- The digits of radix ten. -/
theorem digit?_ten (c : Char) :
    digit? 10 c = if IsDecimal c then some (digitValue c) else none := by
  revert c
  refine char_cases (by decide +kernel) fun c hc => ?_
  have hd : ¬ IsDecimal c := fun h => absurd (Nat.le_trans hc h.2) (by decide)
  rw [digit?_of_ge hc, if_neg hd]

/-- The digits of radix sixteen. -/
theorem digit?_sixteen (c : Char) :
    digit? 16 c = if IsHexadecimal c then some (digitValue c) else none := by
  revert c
  refine char_cases (by decide +kernel) fun c hc => ?_
  have hd : ¬ IsHexadecimal c := by
    rintro (h | h | h) <;> exact absurd (Nat.le_trans hc h.2) (by decide)
  rw [digit?_of_ge hc, if_neg hd]

/-- A row is read character by character exactly if all its characters are. -/
theorem mapM_eq_some_iff {α β : Type} {f : α → Option β} {p : α → Prop} [DecidablePred p]
    {value : α → β} (hf : ∀ a, f a = if p a then some (value a) else none) {row : List α}
    {values : List β} :
    row.mapM f = some values ↔ (∀ a ∈ row, p a) ∧ values = row.map value := by
  induction row generalizing values with
  | nil => simp [eq_comm]
  | cons a rest ih =>
    rw [List.mapM_cons, hf, List.forall_mem_cons]
    by_cases ha : p a
    case neg => simp [ha]
    case pos =>
      simp only [if_pos ha, Option.bind_eq_bind, Option.bind_some, Option.bind_eq_some_iff, ih,
        Option.pure_def, Option.some.injEq, List.map_cons]
      constructor
      · rintro ⟨_, ⟨hrest, rfl⟩, rfl⟩
        exact ⟨⟨ha, hrest⟩, rfl⟩
      · rintro ⟨⟨-, hrest⟩, rfl⟩
        exact ⟨_, ⟨hrest, rfl⟩, rfl⟩

/-- Digits from the left denote what they denote from the right in reverse. -/
theorem ofDigits_eq (radix : Nat) (digits : List Nat) :
    ofDigits radix digits = Nat.ofDigits radix digits.reverse := by
  rw [Nat.ofDigits_eq_foldr, List.foldr_reverse, ofDigits]
  simp only [Nat.cast_id, Nat.add_comm]

/-- A row denotes a number exactly if it is one of digits and not empty. -/
theorem natural?_eq_some_iff {radix : Nat} {p : Char → Prop} [DecidablePred p]
    {value : Char → Nat} (hd : ∀ c, digit? radix c = if p c then some (value c) else none)
    {text : List Char} {n : Nat} :
    natural? radix text = some n ↔
      text ≠ [] ∧ (∀ c ∈ text, p c) ∧ n = Nat.ofDigits radix (text.map value).reverse := by
  rw [natural?]
  split
  case isTrue he => simp [List.isEmpty_iff.1 he]
  case isFalse he =>
    have hne : text ≠ [] := mt List.isEmpty_iff.2 he
    simp only [Option.map_eq_some_iff, mapM_eq_some_iff hd]
    constructor
    · rintro ⟨_, ⟨hp, rfl⟩, rfl⟩
      exact ⟨hne, hp, ofDigits_eq radix _⟩
    · rintro ⟨-, hp, rfl⟩
      exact ⟨_, ⟨hp, rfl⟩, ofDigits_eq radix _⟩

/-- The radix is sixteen behind a mark and ten without one. -/
theorem radixAndDigits_cases (text : List Char) :
    (∃ x digits, (x = 'x' ∨ x = 'X') ∧ text = '0' :: x :: digits ∧
        radixAndDigits text = (16, digits)) ∨
      radixAndDigits text = (10, text) := by
  unfold radixAndDigits
  split
  case h_1 digits => exact .inl ⟨'x', digits, .inl rfl, rfl, rfl⟩
  case h_2 digits => exact .inl ⟨'X', digits, .inr rfl, rfl, rfl⟩
  case h_3 => exact .inr rfl

end Text

namespace Immediate

open Text

/-- A numeral without a sign, with the number that it denotes. -/
inductive Magnitude : List Char → Nat → Prop
  /-- Decimal digits. -/
  | decimal {digits : List Char} (hne : digits ≠ []) (hd : ∀ c ∈ digits, IsDecimal c) :
    Magnitude digits (rowValue 10 digits)
  /-- Hexadecimal digits behind their mark. -/
  | hexadecimal {x : Char} {digits : List Char} (hx : x = 'x' ∨ x = 'X') (hne : digits ≠ [])
      (hd : ∀ c ∈ digits, IsHexadecimal c) :
    Magnitude ('0' :: x :: digits) (rowValue 16 digits)

/-- A numeral, with the integer that it denotes. -/
inductive Numeral : List Char → Int → Prop
  /-- Without a sign. -/
  | unsigned {text : List Char} {n : Nat} (h : Magnitude text n) : Numeral text n
  /-- Behind a plus sign. -/
  | plus {text : List Char} {n : Nat} (h : Magnitude text n) : Numeral ('+' :: text) n
  /-- Behind a minus sign. -/
  | minus {text : List Char} {n : Nat} (h : Magnitude text n) : Numeral ('-' :: text) (-n)

/-- A numeral without a sign starts with a decimal digit. -/
theorem Magnitude.head {text : List Char} {n : Nat} (h : Magnitude text n) :
    ∃ c rest, text = c :: rest ∧ IsDecimal c := by
  cases h with
  | decimal hne hd =>
    obtain ⟨c, rest, rfl⟩ := List.exists_cons_of_ne_nil hne
    exact ⟨c, rest, rfl, hd c List.mem_cons_self⟩
  | @hexadecimal x digits => exact ⟨'0', x :: digits, rfl, by decide⟩

/-- Decimal digits have no mark of another radix. -/
theorem radixAndDigits_of_decimal {text : List Char} (hd : ∀ c ∈ text, IsDecimal c) :
    radixAndDigits text = (10, text) := by
  refine (radixAndDigits_cases text).resolve_left ?_
  rintro ⟨x, digits, hx, rfl, -⟩
  have hdigit : IsDecimal x := hd x (by simp)
  rcases hx with rfl | rfl <;> exact absurd hdigit (by decide)

/-- A text denotes a natural number exactly if it is a numeral without a sign. -/
theorem magnitude?_eq_some_iff {text : List Char} {n : Nat} :
    magnitude? text = some n ↔ Magnitude text n := by
  rw [magnitude?]
  constructor
  · intro h
    rcases radixAndDigits_cases text with ⟨x, digits, hx, rfl, hr⟩ | hr
    · rw [hr] at h
      obtain ⟨hne, hd, rfl⟩ := (natural?_eq_some_iff digit?_sixteen).1 h
      exact .hexadecimal hx hne hd
    · rw [hr] at h
      obtain ⟨hne, hd, rfl⟩ := (natural?_eq_some_iff digit?_ten).1 h
      exact .decimal hne hd
  · intro h
    cases h with
    | decimal hne hd =>
      rw [radixAndDigits_of_decimal hd]
      exact (natural?_eq_some_iff digit?_ten).2 ⟨hne, hd, rfl⟩
    | @hexadecimal x digits hx hne hd =>
      have hr : radixAndDigits ('0' :: x :: digits) = (16, digits) := by
        rcases hx with rfl | rfl <;> rfl
      rw [hr]
      exact (natural?_eq_some_iff digit?_sixteen).2 ⟨hne, hd, rfl⟩

/-- A minus sign negates what is behind it. -/
theorem integer?_minus (text : List Char) :
    integer? ('-' :: text) = (magnitude? text).map fun n : Nat => -(n : Int) := by
  rw [integer?]
  cases magnitude? text <;> rfl

/-- A text that starts with a digit has no sign. -/
theorem integer?_of_decimal {c : Char} (h : IsDecimal c) (rest : List Char) :
    integer? (c :: rest) = (magnitude? (c :: rest)).map Int.ofNat := by
  unfold integer?
  split
  case h_1 hs =>
    obtain ⟨rfl, -⟩ := List.cons.inj hs
    exact absurd h (by decide)
  case h_2 hs =>
    obtain ⟨rfl, -⟩ := List.cons.inj hs
    exact absurd h (by decide)
  case h_3 => rfl

/-- A text denotes an integer exactly if it is a numeral. -/
theorem integer?_eq_some_iff {text : List Char} {n : Int} :
    integer? text = some n ↔ Numeral text n := by
  constructor
  · intro h
    unfold integer? at h
    split at h
    case h_1 rest =>
      obtain ⟨m, hm, rfl⟩ := Option.map_eq_some_iff.1 ((integer?_minus rest).symm.trans h)
      exact .minus (magnitude?_eq_some_iff.1 hm)
    case h_2 =>
      obtain ⟨m, hm, rfl⟩ := Option.map_eq_some_iff.1 h
      exact .plus (magnitude?_eq_some_iff.1 hm)
    case h_3 =>
      obtain ⟨m, hm, rfl⟩ := Option.map_eq_some_iff.1 h
      exact .unsigned (magnitude?_eq_some_iff.1 hm)
  · intro h
    cases h with
    | unsigned h =>
      have hm := magnitude?_eq_some_iff.2 h
      obtain ⟨c, rest, rfl, hc⟩ := h.head
      rw [integer?_of_decimal hc, hm]
      rfl
    | plus h => exact Option.map_eq_some_iff.2 ⟨_, magnitude?_eq_some_iff.2 h, rfl⟩
    | minus h => rw [integer?_minus, magnitude?_eq_some_iff.2 h, Option.map_some]

/-- A numeral denotes one integer. -/
theorem Numeral.unique {text : List Char} {n m : Int} (hn : Numeral text n)
    (hm : Numeral text m) : n = m :=
  Option.some.inj ((integer?_eq_some_iff.2 hn).symm.trans (integer?_eq_some_iff.2 hm))

/-- A text that is no numeral denotes no integer. -/
theorem integer?_eq_none_iff {text : List Char} :
    integer? text = none ↔ ¬ ∃ n, Numeral text n := by
  rw [Option.eq_none_iff_forall_ne_some, not_exists]
  exact forall_congr' fun n => not_congr integer?_eq_some_iff

/-- What is kept of an integer, with the limits as numbers. -/
theorem ofInt_eq (n : Int) :
    ofInt n =
      if n < -2 ^ 63 then .beyond (-2 ^ 63)
      else if 2 ^ 63 ≤ n then .beyond (2 ^ 63 - 1)
      else .value n := by
  have hleast : least = -2 ^ 63 := by decide
  have hgreatest : greatest = 2 ^ 63 - 1 := by decide
  have hlimit : greatest < n ↔ 2 ^ 63 ≤ n := by omega
  simp only [ofInt, hleast, hlimit]
  rw [hgreatest]

/-- A numeral is read as what is kept of the integer that it denotes. -/
theorem ofToken?_of_numeral {token : String} {n : Int} (h : Numeral token.toList n) :
    ofToken? token = some (ofInt n) := by
  rw [ofToken?, integer?_eq_some_iff.2 h, Option.map_some]

/-- A token that is no numeral is not read as a number. -/
theorem ofToken?_eq_none_iff {token : String} :
    ofToken? token = none ↔ ¬ ∃ n, Numeral token.toList n := by
  rw [ofToken?, Option.map_eq_none_iff, integer?_eq_none_iff]

/-- A token is read as a number exactly if it is a numeral. The integer that it denotes is kept if
it has 64 bits; of a smaller or a larger one the limit that it passes is kept. -/
theorem ofToken?_by_numeral (token : String) :
    (ofToken? token = none ↔ ¬ ∃ n, Numeral token.toList n) ∧
      ∀ n, Numeral token.toList n →
        (-2 ^ 63 ≤ n ∧ n < 2 ^ 63 → ofToken? token = some (.value n)) ∧
        (n < -2 ^ 63 → ofToken? token = some (.beyond (-2 ^ 63))) ∧
        (2 ^ 63 ≤ n → ofToken? token = some (.beyond (2 ^ 63 - 1))) := by
  refine ⟨ofToken?_eq_none_iff, fun n hn => ?_⟩
  rw [ofToken?_of_numeral hn, ofInt_eq]
  refine ⟨fun ⟨hl, hg⟩ => ?_, fun hl => ?_, fun hg => ?_⟩
  · rw [if_neg (by omega), if_neg (by omega)]
  · rw [if_pos hl]
  · rw [if_neg (by omega), if_pos hg]

/-- The smallest integer of 64 bits is kept, and one less is too small, whatever its radix. -/
theorem ofToken?_by_numeral_least :
    ofToken? "-09223372036854775808" = some (.value (-2 ^ 63)) ∧
      ofToken? "-0X8000000000000001" = some (.beyond (-2 ^ 63)) := by
  have hdecimal : rowValue 10 "09223372036854775808".toList = 2 ^ 63 := by decide +kernel
  have hhexadecimal : rowValue 16 "8000000000000001".toList = 2 ^ 63 + 1 := by decide +kernel
  have hl : Numeral "-09223372036854775808".toList (-(2 ^ 63 : Nat)) :=
    hdecimal ▸ .minus (.decimal (by decide) (by decide))
  have hs : Numeral "-0X8000000000000001".toList (-(2 ^ 63 + 1 : Nat)) :=
    hhexadecimal ▸ .minus (.hexadecimal (.inr rfl) (by decide) (by decide))
  exact ⟨((ofToken?_by_numeral _).2 _ hl).1 (by decide),
    ((ofToken?_by_numeral _).2 _ hs).2.1 (by decide)⟩

end Immediate

end MiniRisc
