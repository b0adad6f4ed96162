import MiniRisc.Word

/-!
# Data memory

Data lives in a window of whole words that starts at a base address. An access names a byte
address: it must be a multiple of four and must fall into the window, and these two conditions are
checked in this order. Addresses are compared without wrapping, so what a window holds beyond the
end of the address space cannot be reached.
-/

namespace MiniRisc

/-- Why memory refuses an access. -/
inductive MemoryFault where
  /-- The address is not a multiple of four. -/
  | unaligned (address : Word)
  /-- The address is outside the window. -/
  | unmapped (address base limit : Word)
deriving DecidableEq, Repr

/-- The fault in words. -/
def MemoryFault.message : MemoryFault → String
  | unaligned address => "unaligned word address " ++ address.hex
  | unmapped address base limit =>
    "address " ++ address.hex ++ " outside data window " ++ base.hex ++ ".." ++ limit.hex

/-- A window of data words. -/
structure DataMemory where
  /-- The words in address order. -/
  words : Array Word
  /-- The address of the first word. -/
  base : Word
deriving DecidableEq, Repr

namespace DataMemory

/-- A window of zeros. There is no memory for most sizes: `allocate?` gives the windows that a
machine can have. -/
def zeros (base : Word) (size : Nat) : DataMemory := ⟨Array.replicate size 0, base⟩

/-- The number of bytes that one piece of memory has at most. -/
def byteLimit : Nat := Nat.pow 2 63 - 1

/-- A window of zeros, if its words fit into one piece of memory. Whether so much memory is free
is not asked. -/
def allocate? (base : Word) (size : Nat) : Option DataMemory :=
  if 4 * size ≤ byteLimit then some (zeros base size) else none

/-- The address after the last byte, modulo the address space. -/
def endAddress (memory : DataMemory) : Word :=
  memory.base + BitVec.ofNat 32 (4 * memory.words.size)

/-- The place of the word at an address. -/
def place (memory : DataMemory) (address : Word) :
    Except MemoryFault (Fin memory.words.size) :=
  if address.toNat % 4 ≠ 0 then .error (.unaligned address)
  else if memory.base.toNat ≤ address.toNat then
    let offset := (address.toNat - memory.base.toNat) / 4
    if h : offset < memory.words.size then .ok ⟨offset, h⟩
    else .error (.unmapped address memory.base memory.endAddress)
  else .error (.unmapped address memory.base memory.endAddress)

/-- The word at an address. -/
def read (memory : DataMemory) (address : Word) : Except MemoryFault Word :=
  (memory.place address).map fun (place : Fin memory.words.size) => memory.words[place]

/-- The memory with another word at an address. -/
def write (memory : DataMemory) (address value : Word) : Except MemoryFault DataMemory :=
  (memory.place address).map fun (place : Fin memory.words.size) =>
    { memory with words := memory.words.set place value place.isLt }

/-- All words with their addresses modulo the address space, in the order of the window. Where
arithmetic is checked, the offsets of more than `Word.rowLimit` words cannot be computed; here they
wrap. -/
def placed (memory : DataMemory) : List (Word × Word) :=
  memory.words.toList.zipIdx.map fun (word, place) =>
    (memory.base + BitVec.ofNat 32 (4 * place), word)

/-- Writing keeps the size of the window. -/
theorem size_write {memory after : DataMemory} {address value : Word}
    (h : memory.write address value = .ok after) : after.words.size = memory.words.size := by
  unfold write at h
  cases found : memory.place address with
  | error fault => simp [found, Except.map] at h
  | ok place =>
    simp only [found, Except.map, Except.ok.injEq] at h
    rw [← h]
    simp

/-- A word that was written is read back. -/
theorem read_write {memory after : DataMemory} {address value : Word}
    (h : memory.write address value = .ok after) : after.read address = .ok value := by
  unfold write at h
  cases found : memory.place address with
  | error fault => simp [found, Except.map] at h
  | ok place =>
    simp only [found, Except.map, Except.ok.injEq] at h
    subst h
    simp only [DataMemory.place] at found
    split at found
    · cases found
    · split at found
      · split at found
        · next aligned inside small =>
          simp only [Except.ok.injEq] at found
          subst found
          simp [read, DataMemory.place, aligned, inside, small, Except.map]
        · cases found
      · cases found

end DataMemory

end MiniRisc
