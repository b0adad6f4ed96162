import MiniRisc.Proofs.Layout

/-!
# Signed numbers in machine words

In the widths from one to thirty-two, and in no others, integers and their two's-complement
patterns determine each other. The two conversions are written here once more in words of 64 and
32 bits, where a shift, a negation or a subtraction may overflow and then has no result. In these
widths none does, and the words come to what the integers say. The conversions in words are
specification only: nothing is converted with them.
-/

namespace MiniRisc

/-! ### Operations of words that may overflow -/

namespace Checked

variable {size : Nat} {x y : BitVec size} {amount : Word}

/-- A shift to the left. It overflows if the amount is not below the size of the word. -/
def shiftLeft? (x : BitVec size) (amount : Word) : Option (BitVec size) :=
  if amount.toNat < size then some (x <<< amount.toNat) else none

/-- A shift to the right that repeats the sign. It overflows as a shift to the left does. -/
def signedShiftRight? (x : BitVec size) (amount : Word) : Option (BitVec size) :=
  if amount.toNat < size then some (x.sshiftRight amount.toNat) else none

/-- A difference of words without a sign. It overflows if it is below zero. -/
def sub? (x y : BitVec size) : Option (BitVec size) :=
  if x.usubOverflow y then none else some (x - y)

/-- A difference of words with a sign. It overflows if it is outside the signed range. -/
def signedSub? (x y : BitVec size) : Option (BitVec size) :=
  if x.ssubOverflow y then none else some (x - y)

/-- A negation. It overflows on the least word with a sign. -/
def neg? (x : BitVec size) : Option (BitVec size) :=
  if x.negOverflow then none else some (-x)

/-- A difference that is not below zero is that of the numbers. -/
theorem sub?_of_le (h : y.toNat ≤ x.toNat) :
    ∃ result, sub? x y = some result ∧ result.toNat = x.toNat - y.toNat := by
  have hn : ¬x.usubOverflow y = true := by
    rw [BitVec.usubOverflow, decide_eq_true_eq]
    omega
  exact ⟨x - y, if_neg hn, BitVec.toNat_sub_of_le h⟩

/-- A difference of two words that are not below zero is that of the integers. -/
theorem signedSub?_of_nonneg (hx : 0 ≤ x.toInt) (hy : 0 ≤ y.toInt) :
    ∃ result, signedSub? x y = some result ∧ result.toInt = x.toInt - y.toInt := by
  have hn : ¬x.ssubOverflow y = true := by
    have hl := BitVec.toInt_lt (x := x)
    have hg := BitVec.toInt_lt (x := y)
    simp only [BitVec.ssubOverflow, Bool.or_eq_true, decide_eq_true_eq, not_or]
    omega
  exact ⟨x - y, if_neg hn, BitVec.toInt_sub_of_not_ssubOverflow hn⟩

/-- The negation of a word that is not below zero is that of the integer. -/
theorem neg?_of_nonneg (h : 0 ≤ x.toInt) :
    ∃ result, neg? x = some result ∧ result.toInt = -x.toInt := by
  have hp : (0 : Int) < 2 ^ (size - 1) := Int.pow_pos (by decide)
  have hn : ¬x.negOverflow = true := by
    rw [BitVec.negOverflow, beq_iff_eq]
    omega
  exact ⟨-x, if_neg hn, BitVec.toInt_neg_of_not_negOverflow hn⟩

/-- A one that is shifted within the size is two to the power of the amount. -/
theorem shiftLeft?_one (h : amount.toNat < size) :
    ∃ result : BitVec size, shiftLeft? 1 amount = some result ∧
      result.toNat = Nat.pow 2 amount.toNat := by
  have hlt : 2 ^ amount.toNat < 2 ^ size := Nat.pow_lt_pow_right (by decide) h
  have hone : 1 < 2 ^ size := Nat.one_lt_two_pow (by omega)
  have hnat : (1 : BitVec size).toNat = 1 := Nat.mod_eq_of_lt hone
  refine ⟨(1 : BitVec size) <<< amount.toNat, if_pos h, ?_⟩
  rw [BitVec.toNat_shiftLeft, hnat, Nat.shiftLeft_eq, Nat.one_mul, Nat.mod_eq_of_lt hlt]
  rfl

end Checked

namespace Signed

/-! ### The conversions in words -/

/-- The word with as many ones at its end as the width tells. -/
def lowOnes? (width : Word) : Option Word := do
  let limit ← Checked.shiftLeft? (1 : BitVec 64) width
  let ones ← Checked.sub? limit 1
  return ones.setWidth 32

/-- The pattern of an integer of 64 bits, or the error if it is beyond the limits of the width. -/
def encodeInWords? (width : Word) (value : BitVec 64) : Option (Except RangeError Word) := do
  let places ← Checked.sub? width 1
  let limit ← Checked.shiftLeft? (1 : BitVec 64) places
  let least ← Checked.neg? limit
  let greatest ← Checked.signedSub? limit 1
  if value.slt least || greatest.slt value then
    return .error ⟨value.toInt, width.toNat⟩
  else
    let ones ← lowOnes? width
    return .ok (value.setWidth 32 &&& ones)

/-- The number in the low bits of a word: its sign is shifted to the top and repeated on the way
back. -/
def decodeInWords? (width bits : Word) : Option Word := do
  let places ← Checked.sub? 32 width
  let high ← Checked.shiftLeft? bits places
  Checked.signedShiftRight? high places

/-! ### Words and integers agree -/

section

variable {width : Nat}

/-- A width is its own word. -/
theorem toNat_width (hu : width ≤ 32) : (BitVec.ofNat 32 width).toNat = width := by
  rw [BitVec.toNat_ofNat]
  omega

/-- The ones of a width are the number below two to its power. -/
theorem lowOnes?_eq_some (hu : width ≤ 32) :
    lowOnes? (BitVec.ofNat 32 width) = some (BitVec.ofNat 32 (Nat.pow 2 width - 1)) := by
  have hw := toNat_width hu
  have hfits : (BitVec.ofNat 32 width).toNat < 64 := by omega
  obtain ⟨limit, hlimit, hpow⟩ := Checked.shiftLeft?_one hfits
  have hpos : 0 < Nat.pow 2 width := Nat.pow_pos (by decide)
  have hone : (1 : BitVec 64).toNat ≤ limit.toNat := by
    rw [hpow, hw]
    exact hpos
  obtain ⟨ones, hones, hsub⟩ := Checked.sub?_of_le hone
  rw [hpow, hw] at hsub
  have hcut : ones.setWidth 32 = BitVec.ofNat 32 (Nat.pow 2 width - 1) := by
    apply BitVec.eq_of_toNat_eq
    rw [BitVec.toNat_setWidth, hsub, BitVec.toNat_ofNat]
    rfl
  simp only [lowOnes?, hlimit, hones, Option.bind_eq_bind, Option.bind_some, Option.pure_def, hcut]

/-- The low bits that the ones of a width cut out are the pattern of the width. -/
theorem and_lowOnes (hu : width ≤ 32) (value : BitVec 64) :
    value.setWidth 32 &&& BitVec.ofNat 32 (Nat.pow 2 width - 1) =
      (BitVec.ofInt width value.toInt).setWidth 32 := by
  have hcut : BitVec.ofInt width value.toInt = value.setWidth width :=
    BitVec.signExtend_eq_setWidth_of_le value (by omega)
  have hdvd : 2 ^ width ∣ 2 ^ 32 := Nat.pow_dvd_pow 2 hu
  have hle : 2 ^ width ≤ 2 ^ 32 := Nat.le_of_dvd (by decide) hdvd
  have hpos : 0 < 2 ^ width := Nat.pow_pos (by decide)
  have hones : (2 ^ width - 1) % 2 ^ 32 = 2 ^ width - 1 := Nat.mod_eq_of_lt (by omega)
  have hlow : value.toNat % 2 ^ width % 2 ^ 32 = value.toNat % 2 ^ width :=
    Nat.mod_eq_of_lt (Nat.lt_of_lt_of_le (Nat.mod_lt _ hpos) hle)
  apply BitVec.eq_of_toNat_eq
  rw [hcut, BitVec.toNat_and, BitVec.toNat_setWidth, BitVec.toNat_setWidth, BitVec.toNat_setWidth,
    BitVec.toNat_ofNat, Nat.pow_eq, hones, Nat.and_two_pow_sub_one_eq_mod,
    Nat.mod_mod_of_dvd _ hdvd, hlow]

/-- Words encode an integer of 64 bits as it is encoded, and no operation overflows. -/
theorem encodeInWords?_eq_some (hl : 1 ≤ width) (hu : width ≤ 32) (value : BitVec 64) :
    encodeInWords? (BitVec.ofNat 32 width) value =
      some ((encode width value.toInt).map (·.setWidth 32)) := by
  have hw := toNat_width hu
  obtain ⟨places, hplaces, hp⟩ :=
    Checked.sub?_of_le (x := BitVec.ofNat 32 width) (y := 1) (by rw [hw]; exact hl)
  have hp : places.toNat = width - 1 := by rw [hp, hw]; rfl
  have hfits : places.toNat < 64 := by omega
  obtain ⟨limit, hlimit, hpow⟩ := Checked.shiftLeft?_one hfits
  have hhalf : limit.toInt = half width := by
    have hlt : Nat.pow 2 (width - 1) ≤ Nat.pow 2 31 := Nat.pow_le_pow_right (by decide) (by omega)
    rw [BitVec.toInt_eq_toNat_of_lt, hpow, hp]
    · rfl
    · rw [hpow, hp]
      simp only [Nat.pow_eq, Nat.reducePow] at hlt ⊢
      omega
  have hnonneg : 0 ≤ limit.toInt := by
    rw [hhalf]
    exact Int.natCast_nonneg _
  obtain ⟨least, hleast, hneg⟩ := Checked.neg?_of_nonneg hnonneg
  obtain ⟨greatest, hgreatest, hsub⟩ :=
    Checked.signedSub?_of_nonneg (y := (1 : BitVec 64)) hnonneg (by decide)
  have hrange : (value.slt least || greatest.slt value) = decide (¬Fits width value.toInt) := by
    have hone : (1 : BitVec 64).toInt = 1 := rfl
    rw [BitVec.slt, BitVec.slt, ← Bool.decide_or, hneg, hsub, hhalf, hone]
    refine decide_eq_decide.2 ?_
    unfold Fits
    omega
  simp only [encodeInWords?, hplaces, hlimit, hleast, hgreatest, hrange, lowOnes?_eq_some hu,
    and_lowOnes hu, Option.bind_eq_bind, Option.bind_some, Option.pure_def, encode, hw]
  by_cases hf : Fits width value.toInt
  · simp [hf, Except.map]
  · simp [hf, Except.map]

/-- A word whose low bits are shifted to the top and back holds their number. -/
theorem sshiftRight_shiftLeft (hl : 1 ≤ width) (hu : width ≤ 32) (bits : Word) :
    (bits <<< (32 - width)).sshiftRight (32 - width) = (bits.setWidth width).signExtend 32 := by
  refine BitVec.eq_of_getLsbD_eq fun place hp => ?_
  have hin : ¬32 ≤ place := by omega
  rw [BitVec.getLsbD_sshiftRight, BitVec.getLsbD_signExtend, decide_eq_false hin, decide_eq_true hp]
  by_cases hlow : place < width
  · have hs : 32 - width + place < 32 := by omega
    have hge : ¬32 - width + place < 32 - width := by omega
    rw [if_pos hs, if_pos hlow, BitVec.getLsbD_shiftLeft, BitVec.getLsbD_setWidth,
      decide_eq_true hs, decide_eq_true hlow, decide_eq_false hge, Nat.add_sub_cancel_left]
    rfl
  · -- above the number both words repeat the bit below the width
    have hs : ¬32 - width + place < 32 := by omega
    have hlast : 32 - 1 - (32 - width) = width - 1 := by omega
    have hge : ¬32 - 1 < 32 - width := by omega
    have hsign : width - 1 < width := by omega
    rw [if_neg hs, if_neg hlow, BitVec.msb_eq_getLsbD_last, BitVec.msb_eq_getLsbD_last,
      BitVec.getLsbD_shiftLeft, BitVec.getLsbD_setWidth, decide_eq_false hge, hlast,
      decide_eq_true hsign]
    rfl

/-- Words decode the number in the low bits of a word, and no operation overflows. -/
theorem decodeInWords?_eq_some (hl : 1 ≤ width) (hu : width ≤ 32) (bits : Word) :
    (decodeInWords? (BitVec.ofNat 32 width) bits).map BitVec.toInt = some (decode width bits) := by
  have hw := toNat_width hu
  obtain ⟨places, hplaces, hp⟩ :=
    Checked.sub?_of_le (x := (32 : Word)) (y := BitVec.ofNat 32 width) (by rw [hw]; exact hu)
  have hp : places.toNat = 32 - width := by rw [hp, hw]; rfl
  have hlt : places.toNat < 32 := by omega
  have hhigh : Checked.shiftLeft? bits places = some (bits <<< (32 - width)) := by
    rw [← hp]
    exact if_pos hlt
  have hback : ∀ high : Word, Checked.signedShiftRight? high places =
      some (high.sshiftRight (32 - width)) := by
    intro high
    rw [← hp]
    exact if_pos hlt
  simp only [decodeInWords?, hplaces, hhigh, hback, Option.bind_eq_bind, Option.bind_some,
    Option.map_some, sshiftRight_shiftLeft hl hu, BitVec.toInt_signExtend_of_le hu, decode]

end

/-! ### Both directions -/

/-- Integers and patterns of a width determine each other, and words tell both from one another
without overflow. -/
structure Corresponds (width : Nat) : Prop where
  /-- Exactly the integers in the signed range are encoded. -/
  encodes : ∀ value : Int, (∃ pattern, encode width value = .ok pattern) ↔
    -(Nat.pow 2 (width - 1) : Int) ≤ value ∧ value ≤ (Nat.pow 2 (width - 1) : Int) - 1
  /-- A pattern has no more bits than the width and is decoded as the integer. -/
  decodes : ∀ (value : Int) (pattern : BitVec width), encode width value = .ok pattern →
    (pattern.setWidth 32 : Word).toNat < Nat.pow 2 width ∧
      decode width (pattern.setWidth 32) = value
  /-- Every word is decoded as an integer in the signed range, whatever its other bits are. -/
  inRange : ∀ bits : Word, -(Nat.pow 2 (width - 1) : Int) ≤ decode width bits ∧
    decode width bits ≤ (Nat.pow 2 (width - 1) : Int) - 1
  /-- That integer is encoded as the low bits of the word. -/
  encodesBack : ∀ bits : Word, ∃ pattern, encode width (decode width bits) = .ok pattern ∧
    (pattern.setWidth 32 : Word).toNat = bits.toNat % Nat.pow 2 width
  /-- Words encode without overflow. -/
  encodesInWords : ∀ value : BitVec 64, encodeInWords? (BitVec.ofNat 32 width) value =
    some ((encode width value.toInt).map (·.setWidth 32))
  /-- Words decode without overflow. -/
  decodesInWords : ∀ bits : Word,
    (decodeInWords? (BitVec.ofNat 32 width) bits).map BitVec.toInt = some (decode width bits)

section

variable {width : Nat}

/-- The range of a width goes up to the number before the half. -/
theorem fits_iff {value : Int} : Fits width value ↔
    -(Nat.pow 2 (width - 1) : Int) ≤ value ∧ value ≤ (Nat.pow 2 (width - 1) : Int) - 1 := by
  rw [Fits, half, Int.ofNat_eq_natCast]
  omega

/-- The pattern of an integer is decoded as the integer. -/
theorem decode_kept (hl : 1 ≤ width) (hu : width ≤ 32) {value : Int} (h : Fits width value) :
    decode width ((BitVec.ofInt width value).setWidth 32) = value := by
  rw [fits_iff, Nat.pow_eq] at h
  have hlow : -2 ^ (width - 1) ≤ value := by exact_mod_cast h.1
  have hhigh : value < 2 ^ (width - 1) := by exact_mod_cast Int.lt_of_le_sub_one h.2
  rw [decode, BitVec.setWidth_setWidth_of_le _ hu, BitVec.setWidth_eq]
  exact BitVec.toInt_ofInt_eq_self hl hlow hhigh

/-- What is decoded from a word is encoded as its low bits. -/
theorem encode_decode (bits : Word) :
    encode width (decode width bits) = .ok (bits.setWidth width) :=
  encode_eq_ok_iff.2 ⟨Format.fits_toInt (Nat.le_refl width) _, BitVec.ofInt_toInt.symm⟩

/-- Integers and patterns determine each other in all widths that a word holds. -/
theorem corresponds_of_held (hl : 1 ≤ width) (hu : width ≤ 32) : Corresponds width where
  encodes value := by
    rw [← fits_iff]
    exact ⟨fun ⟨pattern, h⟩ => (encode_eq_ok_iff.1 h).1, fun h => ⟨_, encode_eq_ok_iff.2 ⟨h, rfl⟩⟩⟩
  decodes value pattern h := by
    obtain ⟨hf, rfl⟩ := encode_eq_ok_iff.1 h
    rw [BitVec.toNat_setWidth_of_le hu]
    exact ⟨BitVec.isLt _, decode_kept hl hu hf⟩
  inRange bits := fits_iff.1 (Format.fits_toInt (Nat.le_refl width) _)
  encodesBack bits := by
    refine ⟨bits.setWidth width, encode_decode bits, ?_⟩
    rw [BitVec.toNat_setWidth_of_le hu, BitVec.toNat_setWidth]
    rfl
  encodesInWords := encodeInWords?_eq_some hl hu
  decodesInWords := decodeInWords?_eq_some hl hu

/-- In no bits at all minus one would have the pattern of zero. -/
theorem Corresponds.pos (h : Corresponds width) : 1 ≤ width := by
  refine Nat.pos_of_ne_zero fun hz => ?_
  subst hz
  obtain ⟨pattern, hp⟩ := (h.encodes (-1)).2 (by decide)
  have hd := (h.decodes (-1) pattern hp).2
  have hnone : decode 0 (pattern.setWidth 32) = 0 := BitVec.toInt_of_zero_length rfl _
  omega

/-- In more bits than those of a word no sign would be read from a word. -/
theorem Corresponds.le (h : Corresponds width) : width ≤ 32 := by
  refine Nat.le_of_not_lt fun hgt => ?_
  obtain ⟨number, -, hnumber⟩ := Option.map_eq_some_iff.1 (h.decodesInWords (-1))
  have hlt := BitVec.toInt_lt (x := number)
  have hsize : 2 ^ 33 ≤ 2 ^ width := Nat.pow_le_pow_right (by decide) hgt
  have hall : ((-1 : Word).setWidth width).toNat = 4294967295 :=
    BitVec.toNat_setWidth_of_le (by omega)
  have hread : decode width (-1) = 4294967295 := by
    rw [decode, BitVec.toInt_eq_toNat_of_lt, hall]
    · rfl
    · omega
  omega

end

/-- The widths in which integers and patterns determine each other, and words tell both from one
another without overflow, are those from one to thirty-two. -/
theorem corresponds_iff (width : Nat) : Corresponds width ↔ 1 ≤ width ∧ width ≤ 32 :=
  ⟨fun h => ⟨h.pos, h.le⟩, fun h => corresponds_of_held h.1 h.2⟩

/-- Zero and minus one are all that one bit holds, bits beyond it do not count, and 32 bits end
below two to the power of 31. -/
example : encode 1 (-1) = .ok 1 ∧ decode 1 0xFFFFFFFE = 0 ∧
    encodeInWords? 32 2147483647 = some (.ok 0x7FFFFFFF) ∧
    encodeInWords? 32 2147483648 = some (.error ⟨2147483648, 32⟩) :=
  ⟨rfl, rfl, rfl, rfl⟩

end Signed

end MiniRisc
