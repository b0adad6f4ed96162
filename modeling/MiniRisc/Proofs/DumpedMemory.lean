import MiniRisc.Machine.Trace
import MiniRisc.Proofs.AddressNames
import MiniRisc.Proofs.DataWindow
import MiniRisc.Proofs.ProgramText

/-!
# Which windows are dumped as the program sees them

A dump lists the words of the window from its base on, at addresses that are counted modulo the
address space, whereas an access takes multiples of four alone and compares without wrapping. The
two agree exactly for windows that hold nothing or begin at a multiple of four and end within the
address space.
-/

namespace MiniRisc

namespace Word

/-- The full hexadecimal numeral with its mark is solid. -/
theorem solid_hex (word : Word) : Text.Solid word.hex.toList := by
  have hm : Text.Solid ['0', 'x'] := by decide
  rw [toList_hex]
  exact hm.append isSolid_of_mem_hexDigits

/-- A binary numeral has its mark before the digits. -/
theorem toList_markedBinary (word : Word) :
    word.markedBinary.toList = '0' :: 'b' :: word.binaryDigits :=
  String.toList_append.trans (congrArg ("0b".toList ++ ·) String.toList_ofList)

/-- The binary numeral with its mark is solid. -/
theorem solid_markedBinary (word : Word) : Text.Solid word.markedBinary.toList := by
  have hm : Text.Solid ['0', 'b'] := by decide
  rw [toList_markedBinary]
  exact hm.append word.isNumeral_binaryDigits.solid.2

end Word

namespace DataMemory

variable {memory : DataMemory} {place : Nat} {address value : Word}

/-- The address that a dump gives to a place of the window. -/
def addressAt (memory : DataMemory) (place : Nat) : Word :=
  memory.base + BitVec.ofNat 32 (4 * place)

/-- The address of a place as a number, modulo the address space. -/
theorem toNat_addressAt (memory : DataMemory) (place : Nat) :
    (memory.addressAt place).toNat = (memory.base.toNat + 4 * place) % 4294967296 := by
  rw [addressAt, BitVec.toNat_add, BitVec.toNat_ofNat]
  exact Nat.add_mod_mod _ _ _

/-- A dump lists every word with the address of its place. -/
theorem getElem?_placed :
    memory.placed[place]? =
      memory.words[place]?.map fun word => (memory.addressAt place, word) := by
  simp only [placed, addressAt, List.getElem?_map, List.getElem?_zipIdx, Array.getElem?_toList,
    Option.map_map, Nat.zero_add]
  rfl

/-- A dump lists an address in a place exactly if the window has the place and gives it the
address. -/
theorem placed_at_iff :
    memory.placed[place]?.map Prod.fst = some address ↔
      place < memory.words.size ∧ memory.addressAt place = address := by
  rw [getElem?_placed, Option.map_map]
  constructor
  · intro h
    obtain ⟨word, hw, rfl⟩ := Option.map_eq_some_iff.1 h
    exact ⟨(Array.getElem?_eq_some_iff.1 hw).1, rfl⟩
  · rintro ⟨hlt, rfl⟩
    rw [Array.getElem?_eq_getElem hlt]
    rfl

/-- A dump is faithful if it shows the memory that accesses see: every word that it lists is read
at its address, and every address that is read is listed in one place. -/
structure Faithful (memory : DataMemory) : Prop where
  /-- What is listed is read. -/
  readable : ∀ entry ∈ memory.placed, memory.read entry.1 = .ok entry.2
  /-- What is read is listed once. -/
  once : ∀ address value : Word, memory.read address = .ok value →
    ∃! place : Nat, memory.placed[place]?.map Prod.fst = some address

/-- Accesses see the address of every place of a window that is dumped faithfully. -/
theorem Faithful.covers_addressAt (h : memory.Faithful) (hp : place < memory.words.size) :
    (memory.addressAt place).toNat % 4 = 0 ∧ memory.Covers (memory.addressAt place) := by
  have hlisted : memory.placed[place]? = some (memory.addressAt place, memory.words[place]) := by
    rw [getElem?_placed, Array.getElem?_eq_getElem hp]
    rfl
  have hread := h.readable _ (List.mem_of_getElem? hlisted)
  obtain ⟨ha, hc, -⟩ := read_eq_ok_iff.1 hread
  exact ⟨ha, hc⟩

/-- No two places of a window that is dumped faithfully have one address. -/
theorem Faithful.addressAt_injective (h : memory.Faithful) {other : Nat}
    (hp : place < memory.words.size) (ho : other < memory.words.size)
    (he : memory.addressAt place = memory.addressAt other) : place = other := by
  obtain ⟨number, hread⟩ := exists_place_iff.2 (h.covers_addressAt hp)
  have hvalue : memory.read (memory.addressAt place) = .ok memory.words[number] := by
    rw [read, hread]
    rfl
  exact (h.once _ _ hvalue).unique (placed_at_iff.2 ⟨hp, rfl⟩) (placed_at_iff.2 ⟨ho, he.symm⟩)

/-- A window that is dumped faithfully and not empty begins at a multiple of four. -/
theorem Faithful.aligned (h : memory.Faithful) (hs : 0 < memory.words.size) :
    memory.base.toNat % 4 = 0 := by
  have ha := (h.covers_addressAt hs).1
  rw [toNat_addressAt] at ha
  omega

/-- A window that is dumped faithfully and not empty ends within the address space. -/
theorem Faithful.within (h : memory.Faithful) (hs : 0 < memory.words.size) :
    memory.base.toNat + 4 * memory.words.size ≤ 4294967296 := by
  have ha := h.aligned hs
  have hb := memory.base.isLt
  by_contra hgt
  -- the place beyond the end of the address space would be listed at address zero
  have hp : (4294967296 - memory.base.toNat) / 4 < memory.words.size := by omega
  have hz : (memory.addressAt ((4294967296 - memory.base.toNat) / 4)).toNat = 0 := by
    rw [toNat_addressAt]
    omega
  have hbase : memory.base.toNat = 0 := by
    have hc := (h.covers_addressAt hp).2.1
    omega
  have hfirst : (memory.addressAt 0).toNat = 0 := by
    rw [toNat_addressAt]
    omega
  have hsame := h.addressAt_injective hs hp (BitVec.eq_of_toNat_eq (hfirst.trans hz.symm))
  omega

section

variable (ha : memory.base.toNat % 4 = 0)
  (hw : memory.base.toNat + 4 * memory.words.size ≤ 4294967296)

include ha hw

/-- In an aligned window within the address space accesses see every place at its address. -/
theorem read_addressAt (hp : place < memory.words.size) :
    memory.read (memory.addressAt place) = .ok memory.words[place] := by
  have hn : (memory.addressAt place).toNat = memory.base.toNat + 4 * place := by
    rw [toNat_addressAt]
    omega
  have hd : ((memory.addressAt place).toNat - memory.base.toNat) / 4 = place := by omega
  rw [read_eq_ok_iff, hd]
  exact ⟨by omega, ⟨by omega, by omega⟩, Array.getElem?_eq_getElem hp⟩

/-- In such a window an address that is read is that of the place that its distance counts. -/
theorem addressAt_eq_iff (hr : memory.read address = .ok value) (hp : place < memory.words.size) :
    memory.addressAt place = address ↔ place = (address.toNat - memory.base.toNat) / 4 := by
  obtain ⟨haddress, ⟨hb, ht⟩, -⟩ := read_eq_ok_iff.1 hr
  have hn : (memory.addressAt place).toNat = memory.base.toNat + 4 * place := by
    rw [toNat_addressAt]
    omega
  rw [← BitVec.toNat_inj, hn]
  omega

/-- Such a window is dumped faithfully. -/
theorem faithful_of_aligned : memory.Faithful where
  readable entry he := by
    obtain ⟨place, hplace⟩ := List.mem_iff_getElem?.1 he
    rw [getElem?_placed] at hplace
    obtain ⟨word, hword, rfl⟩ := Option.map_eq_some_iff.1 hplace
    obtain ⟨hlt, rfl⟩ := Array.getElem?_eq_some_iff.1 hword
    exact read_addressAt ha hw hlt
  once address value hr := by
    obtain ⟨-, ⟨hb, ht⟩, -⟩ := read_eq_ok_iff.1 hr
    have hlt : (address.toNat - memory.base.toNat) / 4 < memory.words.size := by omega
    refine ⟨_, placed_at_iff.2 ⟨hlt, (addressAt_eq_iff ha hw hr hlt).2 rfl⟩, ?_⟩
    intro place hplace
    obtain ⟨hp, he⟩ := placed_at_iff.1 hplace
    exact (addressAt_eq_iff ha hw hr hp).1 he

end

/-- An empty window is dumped faithfully: nothing is listed and nothing is read. -/
theorem faithful_of_empty (h : memory.words.size = 0) : memory.Faithful where
  readable entry he := by
    obtain ⟨place, hplace⟩ := List.mem_iff_getElem?.1 he
    have hlisted : memory.placed[place]?.map Prod.fst = some entry.1 := by rw [hplace]; rfl
    have hp := (placed_at_iff.1 hlisted).1
    omega
  once address value hr := by
    obtain ⟨-, ⟨hb, ht⟩, -⟩ := read_eq_ok_iff.1 hr
    omega

/-- A word with its address as a line without its ending. -/
def entryLine (entry : Word × Word) : List Char :=
  entry.1.hex.toList ++ ':' :: entry.2.markedBinary.toList

/-- Such a line has no line ending. -/
theorem not_mem_entryLine (entry : Word × Word) {c : Char} (hs : Text.isSolid c = false)
    (hc : c ≠ ':') : c ∉ entryLine entry := by
  intro hm
  rcases List.mem_append.1 hm with hm | hm
  · exact Text.ne_of_isSolid (entry.1.solid_hex.2 c hm) hs rfl
  · rcases List.mem_cons.1 hm with he | hm
    · exact hc he
    · exact Text.ne_of_isSolid (entry.2.solid_markedBinary.2 c hm) hs rfl

/-- The text of a dump is the lines of the listed words, each with its ending. -/
theorem toList_traceText (memory : DataMemory) :
    memory.traceText.toList = (memory.placed.map entryLine).flatMap (· ++ ['\n']) := by
  have hline : ∀ entry, (dataLine entry).toList = entryLine entry ++ ['\n'] := fun entry => by
    have hc : ":".toList = [':'] := rfl
    have hn : "\n".toList = ['\n'] := rfl
    simp only [dataLine, entryLine, String.toList_append, hc, hn, List.append_assoc,
      List.cons_append, List.nil_append]
  rw [traceText, String.toList_join, List.flatMap_map, List.flatMap_map]
  exact List.flatMap_congr fun entry _ => hline entry

/-- The lines of a dump are those of the listed words, in their order. -/
theorem lines_traceText (memory : DataMemory) :
    Text.lines memory.traceText.toList = memory.placed.map entryLine := by
  rw [toList_traceText, Text.lines_flatMap]
  intro row hr
  obtain ⟨entry, -, rfl⟩ := List.mem_map.1 hr
  exact ⟨not_mem_entryLine entry rfl (by decide), not_mem_entryLine entry rfl (by decide)⟩

/-- A dump has a line for every word of the window. It is faithful exactly if the window holds
nothing, or begins at a multiple of four and ends within the address space. -/
theorem faithful_iff_aligned (memory : DataMemory) :
    Text.lines memory.traceText.toList = memory.placed.map entryLine ∧
      (memory.Faithful ↔ memory.words.size = 0 ∨ memory.base.toNat % 4 = 0 ∧
        memory.base.toNat + 4 * memory.words.size ≤ 4294967296) := by
  refine ⟨lines_traceText memory, fun h => ?_, fun h => ?_⟩
  · rcases Nat.eq_zero_or_pos memory.words.size with hs | hs
    case inl => exact .inl hs
    case inr => exact .inr ⟨h.aligned hs, h.within hs⟩
  · rcases h with hs | ⟨ha, hw⟩
    case inl => exact faithful_of_empty hs
    case inr => exact faithful_of_aligned ha hw

/-- A window from address two is dumped with an address that is refused and without the one that is
read, and a window at the end of the address space with an address that is refused. -/
theorem not_faithful_at_two :
    ((zeros 2 1).placed = [(2, 0)] ∧ (zeros 2 1).read 2 = .error (.unaligned 2) ∧
      (zeros 2 1).read 4 = .ok 0) ∧
    (zeros 0xFFFFFFFC 2).placed = [(0xFFFFFFFC, 0), (0, 0)] ∧
      (zeros 0xFFFFFFFC 2).read 0 = .error (.unmapped 0 0xFFFFFFFC 4) := by
  decide

end DataMemory

end MiniRisc
