import MiniRisc.Word

/-!
# Programs

A program is a row of words at consecutive multiples of four from address zero. Only such
addresses hold an instruction.
-/

namespace MiniRisc

/-- The instruction words of a program; word `i` has the address `4 * i`. -/
structure Program where
  /-- The words in address order. -/
  words : Array Word := #[]
deriving DecidableEq, Repr

namespace Program

/-- The address of a word by its place. -/
def addressOf (place : Nat) : Word := BitVec.ofNat 32 (4 * place)

/-- The word at an address, if the address holds one. -/
def fetch? (program : Program) (address : Word) : Option Word :=
  if address.toNat % 4 = 0 then program.words[address.toNat / 4]? else none

/-- Whether an address holds a word. -/
def holds (program : Program) (address : Word) : Bool := (program.fetch? address).isSome

/-- The address after the last word. -/
def endAddress (program : Program) : Word := addressOf program.words.size

/-- All words with their addresses, in address order. Where arithmetic is checked, the addresses of
more than `Word.rowLimit` words cannot be computed; here they wrap. -/
def placed (program : Program) : List (Word × Word) :=
  program.words.toList.zipIdx.map fun (word, place) => (addressOf place, word)

/-- The address of a word fetches it, as long as addresses do not wrap. -/
theorem fetch?_addressOf {program : Program} {place : Nat} (h : 4 * place < 4294967296) :
    program.fetch? (addressOf place) = program.words[place]? := by
  have number : (addressOf place).toNat = 4 * place := by
    rw [addressOf, BitVec.toNat_ofNat]
    exact Nat.mod_eq_of_lt h
  rw [fetch?, number, if_pos (Nat.mul_mod_right 4 place), Nat.mul_div_cancel_left place (by decide)]

/-- A fetched word stands in the place that the address is that of. -/
theorem exists_place_of_fetch? {program : Program} {address word : Word}
    (h : program.fetch? address = some word) :
    ∃ place, program.words[place]? = some word ∧ address = addressOf place := by
  unfold fetch? at h
  split at h
  case isTrue hm =>
    have hd : 4 * (address.toNat / 4) = address.toNat := by omega
    refine ⟨address.toNat / 4, h, ?_⟩
    rw [addressOf, hd, BitVec.ofNat_toNat, BitVec.setWidth_eq]
  case isFalse => cases h

/-- An address that holds a word is the address of a place of the program. -/
theorem mem_of_holds {program : Program} {address : Word} (h : program.holds address = true) :
    address ∈ (List.range' 0 program.words.size).map addressOf := by
  obtain ⟨word, hw⟩ := Option.isSome_iff_exists.1 h
  obtain ⟨place, hp, rfl⟩ := exists_place_of_fetch? hw
  obtain ⟨hlt, -⟩ := Array.getElem?_eq_some_iff.1 hp
  exact List.mem_map.2 ⟨place, List.mem_range'_1.2 (by omega), rfl⟩

end Program

end MiniRisc
