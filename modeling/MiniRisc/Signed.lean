import MiniRisc.Word

/-!
# Signed numbers in a few bits

An immediate is an integer; a word keeps it as a two's-complement pattern of some width. Encoding
checks the range and is the only range check of the library. Decoding reads the low bits of a
word and ignores the others.
-/

namespace MiniRisc

/-- An integer that has no two's-complement pattern of the wanted width. -/
structure RangeError where
  /-- The integer as it was given. -/
  value : Int
  /-- The width in bits that it does not fit in. -/
  width : Nat
deriving DecidableEq, Repr

/-- The complaint in words. -/
def RangeError.message (error : RangeError) : String :=
  s!"immediate {error.value} does not fit in {error.width} bits"

namespace Signed

/-- Half the number of patterns of a width: negative integers go down to its negation, and the
others stay below it. -/
def half (width : Nat) : Int := Int.ofNat (Nat.pow 2 (width - 1))

/-- The integers that have a two's-complement pattern of this width. -/
def Fits (width : Nat) (value : Int) : Prop := -half width ≤ value ∧ value < half width

instance (width : Nat) (value : Int) : Decidable (Fits width value) :=
  inferInstanceAs (Decidable (_ ∧ _))

/-- The two's-complement pattern of an integer in the range of the width. -/
def encode (width : Nat) (value : Int) : Except RangeError (BitVec width) :=
  if Fits width value then .ok (BitVec.ofInt width value) else .error ⟨value, width⟩

/-- The integer whose pattern stands in the low bits of a word. -/
def decode (width : Nat) (bits : Word) : Int := (bits.setWidth width).toInt

/-- Encoding succeeds on the range of the width and nowhere else. -/
theorem encode_eq_ok_iff {width : Nat} {value : Int} {pattern : BitVec width} :
    encode width value = .ok pattern ↔ Fits width value ∧ pattern = BitVec.ofInt width value := by
  unfold encode
  split <;> simp_all [eq_comm]

end Signed

end MiniRisc
