import MiniRisc.Signed

/-!
# What can be wrong with source text

An error of a line says what the line does wrong; an error of a source says on which line, or
that the program has no end. The wording of each is fixed here.
-/

namespace MiniRisc

/-- A line that is not written as an instruction or a label must be. -/
inductive Defect where
  /-- There is neither a mnemonic nor an operand. -/
  | noInstruction
  /-- The operation takes another number of operands. -/
  | operandCount (mnemonic : String) (expected found : Nat)
  /-- An operand is neither a number nor a label. -/
  | unresolved (token : String)
  /-- A colon does not follow a single name, or is not the only one. -/
  | badLabel (line : String)
  /-- The name was defined before. -/
  | duplicateLabel (name : String)
deriving DecidableEq, Repr

/-- What is wrong with one line. -/
inductive LineError where
  /-- No operation has this mnemonic. -/
  | unknownMnemonic (token : String)
  /-- No register has this name. -/
  | unknownRegister (token : String)
  /-- A number or offset does not fit in its place. -/
  | outOfRange (error : RangeError)
  /-- The line is not of the right form. -/
  | malformed (defect : Defect)
deriving DecidableEq, Repr

/-- Why a source gives no program. -/
inductive AssemblyError where
  /-- A line is wrong; lines count from one. -/
  | atLine (number : Nat) (error : LineError)
  /-- No instruction ends the program. -/
  | noVirtualHalt
deriving DecidableEq, Repr

/-- The defect in words. -/
def Defect.message : Defect → String
  | noInstruction => "empty instruction"
  | operandCount mnemonic expected found =>
    s!"'{mnemonic}' takes {expected} operand(s), found {found}"
  | unresolved token => s!"'{token}' is neither an immediate nor a known label"
  | badLabel line => s!"bad label definition '{line}'"
  | duplicateLabel name => s!"duplicate label '{name}'"

/-- The error of a line in words. -/
def LineError.message : LineError → String
  | unknownMnemonic token => s!"Invalid Instruction '{token}'"
  | unknownRegister token => s!"Invalid Register '{token}'"
  | outOfRange error => s!"Incorrect Immediate: {error.value} does not fit in {error.width} bits"
  | malformed defect => "Invalid Instruction Format: " ++ defect.message

/-- The error of a source in words. -/
def AssemblyError.message : AssemblyError → String
  | atLine number error => s!"Line {number}: " ++ error.message
  | noVirtualHalt => "Virtual Halt Not Found"

/-- The error as it is shown to the user of the assembler. -/
def AssemblyError.diagnostic (error : AssemblyError) : String :=
  "ERROR: " ++ error.message ++ "!"

end MiniRisc
