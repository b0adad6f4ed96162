import MiniRisc.DataMemory

/-!
# The window of the data memory

Memory accepts the addresses that are multiples of four and fall into the window, compared as
natural numbers, and gives every one of them a place of its own, wherever the window starts. A
write is therefore seen at its address and nowhere else.
-/

namespace MiniRisc.DataMemory

variable {memory after : DataMemory} {address other value : Word}

/-- An address is in the window. -/
def Covers (memory : DataMemory) (address : Word) : Prop :=
  memory.base.toNat ≤ address.toNat ∧
    address.toNat < memory.base.toNat + 4 * memory.words.size

/-- An address that is not a multiple of four has no place. -/
theorem place_of_unaligned (h : address.toNat % 4 ≠ 0) :
    memory.place address = .error (.unaligned address) := by
  rw [place, if_pos h]

/-- A multiple of four outside the window has no place. -/
theorem place_of_uncovered (ha : address.toNat % 4 = 0) (h : ¬ memory.Covers address) :
    memory.place address = .error (.unmapped address memory.base memory.endAddress) := by
  rw [place, if_neg (not_not_intro ha)]
  split
  case isTrue hb =>
    have hlt : ¬ (address.toNat - memory.base.toNat) / 4 < memory.words.size :=
      fun hs => h ⟨hb, by omega⟩
    exact dif_neg hlt
  case isFalse => rfl

/-- A multiple of four in the window has the place that its distance from the base counts. -/
theorem place_eq_ok_iff {place : Fin memory.words.size} :
    memory.place address = .ok place ↔
      address.toNat % 4 = 0 ∧ memory.Covers address ∧
        place.val = (address.toNat - memory.base.toNat) / 4 := by
  by_cases ha : address.toNat % 4 = 0
  case neg => simp [place_of_unaligned ha, ha]
  case pos =>
    by_cases hc : memory.Covers address
    case neg => simp [place_of_uncovered ha hc, hc]
    case pos =>
      obtain ⟨hb, ht⟩ := hc
      have hlt : (address.toNat - memory.base.toNat) / 4 < memory.words.size := by omega
      rw [DataMemory.place, if_neg (not_not_intro ha), if_pos hb]
      dsimp only
      rw [dif_pos hlt, Except.ok.injEq, Fin.ext_iff]
      exact ⟨fun h => ⟨ha, ⟨hb, ht⟩, h.symm⟩, fun h => h.2.2.symm⟩

/-- Memory accepts the multiples of four in the window. -/
theorem exists_place_iff :
    (∃ place, memory.place address = .ok place) ↔
      address.toNat % 4 = 0 ∧ memory.Covers address := by
  constructor
  · rintro ⟨place, hp⟩
    obtain ⟨ha, hc, -⟩ := place_eq_ok_iff.1 hp
    exact ⟨ha, hc⟩
  · rintro ⟨ha, hb, ht⟩
    have hlt : (address.toNat - memory.base.toNat) / 4 < memory.words.size := by omega
    exact ⟨⟨_, hlt⟩, place_eq_ok_iff.2 ⟨ha, ⟨hb, ht⟩, rfl⟩⟩

/-- Memory refuses every other address. -/
theorem refuses_of_place {fault : MemoryFault} (h : memory.place address = .error fault) :
    ¬ (address.toNat % 4 = 0 ∧ memory.Covers address) := by
  intro ha
  obtain ⟨place, hp⟩ := exists_place_iff.2 ha
  rw [h] at hp
  cases hp

/-- Multiples of four above the base have different distances from it in whole words, even if the
base is not a multiple of four. -/
theorem eq_of_distance_eq {base : Word} (ha : address.toNat % 4 = 0)
    (hb : base.toNat ≤ address.toNat) (ho : other.toNat % 4 = 0) (hb' : base.toNat ≤ other.toNat)
    (h : (address.toNat - base.toNat) / 4 = (other.toNat - base.toNat) / 4) : address = other := by
  apply BitVec.eq_of_toNat_eq
  omega

/-- A read fails where there is no place. -/
theorem read_eq_error_iff {fault : MemoryFault} :
    memory.read address = .error fault ↔ memory.place address = .error fault := by
  rw [read]
  cases memory.place address <;> simp [Except.map]

/-- A write fails where there is no place. -/
theorem write_eq_error_iff {fault : MemoryFault} :
    memory.write address value = .error fault ↔ memory.place address = .error fault := by
  rw [write]
  cases memory.place address <;> simp [Except.map]

/-- A read gives the word that the distance of its address from the base counts. -/
theorem read_eq_ok_iff :
    memory.read address = .ok value ↔ address.toNat % 4 = 0 ∧ memory.Covers address ∧
      memory.words[(address.toNat - memory.base.toNat) / 4]? = some value := by
  rw [read]
  cases hp : memory.place address with
  | error fault =>
    simp only [Except.map, reduceCtorEq, false_iff]
    exact fun h => refuses_of_place hp ⟨h.1, h.2.1⟩
  | ok place =>
    obtain ⟨ha, hc, hd⟩ := place_eq_ok_iff.1 hp
    rw [← hd, Array.getElem?_eq_getElem place.isLt]
    simp [Except.map, ha, hc]

/-- A write changes the word that the distance of its address from the base counts. -/
theorem write_eq_ok_iff :
    memory.write address value = .ok after ↔ address.toNat % 4 = 0 ∧ memory.Covers address ∧
      after = { memory with
        words := memory.words.setIfInBounds ((address.toNat - memory.base.toNat) / 4) value } := by
  rw [write]
  cases hp : memory.place address with
  | error fault =>
    simp only [Except.map, reduceCtorEq, false_iff]
    exact fun h => refuses_of_place hp ⟨h.1, h.2.1⟩
  | ok place =>
    obtain ⟨ha, hc, hd⟩ := place_eq_ok_iff.1 hp
    have hs : memory.words.setIfInBounds place.val value =
        memory.words.set place value place.isLt := dif_pos place.isLt
    rw [← hd, hs]
    simp [Except.map, ha, hc, eq_comm]

/-- Writing keeps the base of the window. -/
theorem base_write (h : memory.write address value = .ok after) : after.base = memory.base := by
  obtain ⟨-, -, rfl⟩ := write_eq_ok_iff.1 h
  rfl

/-- A write is not seen at another address. -/
theorem read_write_of_ne (h : memory.write address value = .ok after) (hne : other ≠ address)
    {result : Word} : after.read other = .ok result ↔ memory.read other = .ok result := by
  obtain ⟨ha, ⟨hb, -⟩, rfl⟩ := write_eq_ok_iff.1 h
  simp only [read_eq_ok_iff, Covers, Array.size_setIfInBounds, Array.getElem?_setIfInBounds]
  refine and_congr_right fun ho => and_congr_right fun hc => ?_
  have hd : (address.toNat - memory.base.toNat) / 4 ≠ (other.toNat - memory.base.toNat) / 4 :=
    fun he => hne (eq_of_distance_eq ha hb ho hc.1 he).symm
  rw [if_neg hd]

end MiniRisc.DataMemory
