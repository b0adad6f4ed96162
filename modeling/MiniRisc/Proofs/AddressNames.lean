import MiniRisc.Listing.Walk
import MiniRisc.Proofs.Tokens

/-!
# The names of addresses

A listing calls an address by its short numeral and, where control is sent, by a name made of its
full numeral. Both are solid texts, no two addresses share one, no numeral is a name of the other
kind, and a name is not shaped like a number, so it can only be read as a label.
-/

namespace MiniRisc

namespace Word

/-- Hexadecimal digits are told apart by their characters. -/
theorem digitChar_injective {m n : Nat} (hm : m < 16) (hn : n < 16)
    (h : m.digitChar = n.digitChar) : m = n := by
  have hall : ∀ i j : Fin 16, i.val.digitChar = j.val.digitChar → i = j := by decide
  exact congrArg Fin.val (hall ⟨m, hm⟩ ⟨n, hn⟩ h)

/-- A hexadecimal digit is solid. -/
theorem isSolid_digitChar {n : Nat} (h : n < 16) : Text.isSolid n.digitChar = true := by
  have hall : ∀ i : Fin 16, Text.isSolid i.val.digitChar = true := by decide
  exact hall ⟨n, h⟩

/-- All digits of a full numeral are solid. -/
theorem isSolid_of_mem_hexDigits {word : Word} : ∀ c ∈ word.hexDigits, Text.isSolid c = true := by
  intro c hc
  obtain ⟨place, -, rfl⟩ := List.mem_map.1 hc
  exact isSolid_digitChar (BitVec.isLt _)

/-- A full numeral determines the word. -/
theorem hexDigits_injective {first second : Word} (h : first.hexDigits = second.hexDigits) :
    first = second := by
  have hplace : ∀ place ∈ List.range 8, first.extractLsb' (4 * (7 - place)) 4 =
      second.extractLsb' (4 * (7 - place)) 4 := fun place hp =>
    BitVec.eq_of_toNat_eq (digitChar_injective (BitVec.isLt _) (BitVec.isLt _)
      (List.map_inj_left.1 h place hp))
  ext i hi
  have hp : 7 - i / 4 ∈ List.range 8 := List.mem_range.2 (by omega)
  have hlt : i % 4 < 4 := Nat.mod_lt i (by decide)
  have hadd : 4 * (7 - (7 - i / 4)) + i % 4 = i := by omega
  have hbit := congrArg (BitVec.getLsbD · (i % 4)) (hplace _ hp)
  simpa only [BitVec.getLsbD_extractLsb', hlt, decide_true, Bool.true_and, hadd,
    BitVec.getLsbD_eq_getElem hi] using hbit

/-- A short numeral is the full one without zeros at its front. -/
theorem hexDigits_eq_replicate_append (word : Word) :
    word.hexDigits =
      List.replicate (8 - word.shortHexDigits.length) '0' ++ word.shortHexDigits := by
  have hz : ∀ c ∈ (word.hexDigits.take 4).takeWhile (· == '0'), c = '0' := fun c hc =>
    beq_iff_eq.1 (List.all_eq_true.1 List.all_takeWhile c hc)
  have hsplit : (word.hexDigits.take 4).takeWhile (· == '0') ++ word.shortHexDigits =
      word.hexDigits := by
    rw [shortHexDigits, ← List.append_assoc, List.takeWhile_append_dropWhile,
      List.take_append_drop]
  have hlength := congrArg List.length hsplit
  rw [List.length_append, length_hexDigits] at hlength
  have hcount : 8 - word.shortHexDigits.length =
      ((word.hexDigits.take 4).takeWhile (· == '0')).length := by omega
  rw [hcount, ← List.eq_replicate_of_mem hz, hsplit]

/-- A short numeral determines the word. -/
theorem shortHexDigits_injective {first second : Word}
    (h : first.shortHexDigits = second.shortHexDigits) : first = second := by
  apply hexDigits_injective
  rw [hexDigits_eq_replicate_append, hexDigits_eq_replicate_append second, h]

/-- A full numeral has its mark before the digits. -/
theorem toList_hex (word : Word) : word.hex.toList = '0' :: 'x' :: word.hexDigits :=
  String.toList_append.trans (congrArg ("0x".toList ++ ·) String.toList_ofList)

/-- A short numeral has its mark before the digits. -/
theorem toList_shortHex (word : Word) :
    word.shortHex.toList = '0' :: 'x' :: word.shortHexDigits :=
  String.toList_append.trans (congrArg ("0x".toList ++ ·) String.toList_ofList)

/-- The name of a target has its mark before the digits. -/
theorem toList_targetName (word : Word) :
    word.targetName.toList = 'l' :: 'o' :: 'c' :: '_' :: word.hexDigits :=
  String.toList_append.trans (congrArg ("loc_".toList ++ ·) String.toList_ofList)

/-- The short numeral of an address with its mark is solid. -/
theorem solid_shortHex (word : Word) : Text.Solid word.shortHex.toList := by
  have hd : ∀ c ∈ word.shortHexDigits, Text.isSolid c = true := by
    intro c hc
    rcases List.mem_append.1 hc with hc | hc
    · exact isSolid_of_mem_hexDigits c
        (List.mem_of_mem_take ((List.dropWhile_suffix _).subset hc))
    · exact isSolid_of_mem_hexDigits c (List.mem_of_mem_drop hc)
  have hm : Text.Solid ['0', 'x'] := by decide
  rw [toList_shortHex]
  exact hm.append hd

/-- The name of a target is solid. -/
theorem solid_targetName (word : Word) : Text.Solid word.targetName.toList := by
  have hm : Text.Solid ['l', 'o', 'c', '_'] := by decide
  rw [toList_targetName]
  exact hm.append isSolid_of_mem_hexDigits

/-- No two addresses have the same short numeral. -/
theorem shortHex_injective {first second : Word} (h : first.shortHex = second.shortHex) :
    first = second := by
  have hl := congrArg String.toList h
  rw [toList_shortHex, toList_shortHex] at hl
  exact shortHexDigits_injective (List.cons.inj (List.cons.inj hl).2).2

/-- No two addresses have the same target name. -/
theorem targetName_injective {first second : Word} (h : first.targetName = second.targetName) :
    first = second := by
  have hl := congrArg String.toList h
  rw [toList_targetName, toList_targetName] at hl
  have ha : ['l', 'o', 'c', '_'] ++ first.hexDigits = ['l', 'o', 'c', '_'] ++ second.hexDigits := hl
  exact hexDigits_injective (List.append_cancel_left ha)

/-- A short numeral is not the name of a target. -/
theorem shortHex_ne_targetName (first second : Word) : first.shortHex ≠ second.targetName := by
  intro h
  have hl := congrArg String.toList h
  rw [toList_shortHex, toList_targetName] at hl
  exact absurd (List.cons.inj hl).1 (by decide)

/-- The name of a target is not shaped like a number. -/
theorem ofToken?_targetName (word : Word) : Immediate.ofToken? word.targetName = none := by
  rw [Immediate.ofToken?, toList_targetName]
  rfl

end Word

end MiniRisc
