import MiniRisc.Word

/-!
# Registers by name

Thirty-two registers have one conventional name each, and the frame pointer is a second name of
`s0`. Numbers such as `x5` are not names.
-/

namespace MiniRisc.Register

/-- The names in the order of the registers. -/
def names : List String :=
  ["zero", "ra", "sp", "gp", "tp", "t0", "t1", "t2",
   "s0", "s1", "a0", "a1", "a2", "a3", "a4", "a5",
   "a6", "a7", "s2", "s3", "s4", "s5", "s6", "s7",
   "s8", "s9", "s10", "s11", "t3", "t4", "t5", "t6"]

/-- The register that always reads zero. -/
def zero : Byte := 0

/-- The stack pointer. -/
def stackPointer : Byte := 2

/-- The frame pointer, which is `s0`. -/
def framePointer : Byte := 8

/-- The place of a register in the register file: the low five bits of its number. -/
def index (register : Byte) : Fin 32 := ⟨register.toNat % 32, Nat.mod_lt _ (by decide)⟩

/-- The name of a register, of which only the low five bits count. -/
def name (register : Byte) : String := names[(index register).val]

/-- The register with a given name. -/
def ofName? (text : String) : Option Byte :=
  if text = "fp" then some framePointer
  else (names.findIdx? (· == text)).map (BitVec.ofNat 8)

end MiniRisc.Register
