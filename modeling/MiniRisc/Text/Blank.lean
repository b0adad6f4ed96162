/-!
# Blank space, pieces and words

A character is blank if it has the Unicode property White_Space. Texts are cut into pieces at
separators, into words at blanks, and trimmed of blanks at both ends. Everything here works on the
list of characters of a text.
-/

namespace MiniRisc.Text

/-- The code points with the property White_Space, as inclusive ranges in ascending order. -/
def blankRanges : List (Nat × Nat) :=
  [(0x0009, 0x000D), (0x0020, 0x0020), (0x0085, 0x0085), (0x00A0, 0x00A0), (0x1680, 0x1680),
   (0x2000, 0x200A), (0x2028, 0x2029), (0x202F, 0x202F), (0x205F, 0x205F), (0x3000, 0x3000)]

/-- Whether a character is blank. -/
def isBlank (c : Char) : Bool :=
  blankRanges.any fun range => range.1 ≤ c.toNat && c.toNat ≤ range.2

/-- A text without the blanks at its ends. -/
def trim (text : List Char) : List Char :=
  ((text.dropWhile isBlank).reverse.dropWhile isBlank).reverse

/-- The pieces between separators, one more than there are separators; pieces may be empty. -/
def pieces (separator : Char → Bool) : List Char → List (List Char)
  | [] => [[]]
  | c :: rest =>
    if separator c then [] :: pieces separator rest
    else (pieces separator rest).modifyHead (c :: ·)

/-- The maximal runs of characters that are not blank. -/
def words (text : List Char) : List (List Char) :=
  (pieces isBlank text).filter (!·.isEmpty)

/-- Cutting never yields nothing. -/
theorem pieces_ne_nil (separator : Char → Bool) (text : List Char) :
    pieces separator text ≠ [] := by
  induction text with
  | nil => simp [pieces]
  | cons c rest ih =>
    simp only [pieces]
    split
    · simp
    · cases h : pieces separator rest with
      | nil => exact absurd h ih
      | cons piece more => simp

/-- A separator between two texts ends the last piece of the first. -/
theorem pieces_append_cons {separator : Char → Bool} {c : Char} (h : separator c = true)
    (first second : List Char) :
    pieces separator (first ++ c :: second) =
      pieces separator first ++ pieces separator second := by
  induction first with
  | nil => simp [pieces, h]
  | cons d rest ih =>
    simp only [List.cons_append, pieces, ih]
    split
    · rfl
    · cases cut : pieces separator rest with
      | nil => exact absurd cut (pieces_ne_nil separator rest)
      | cons piece more => simp

end MiniRisc.Text
