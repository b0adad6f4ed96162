import MiniRisc.Assembly.Error
import MiniRisc.Assembly.Immediate
import MiniRisc.Assembly.Label
import MiniRisc.Operation
import MiniRisc.Register

/-!
# Encoding one instruction

The first token is the mnemonic, in any ASCII case. The others fill the slots of the operation
from left to right. A number in the slot of the immediate stands for itself; any other token there
is a label and stands for the distance from the instruction to it. Whether the immediate fits is
checked last, except that a number beyond 64 bits never fits.

Branch and jump offsets may be accepted and yet not come back from the word; such a loss is
reported beside the word.
-/

namespace MiniRisc

/-- Where an instruction stands. -/
structure Site where
  /-- Its address. -/
  address : Word := 0
  /-- The labels it may refer to. -/
  labels : LabelTable := []
deriving DecidableEq, Repr

/-- An offset that its word does not store. -/
structure OffsetLoss where
  /-- The operation. -/
  op : Op
  /-- The address of the instruction. -/
  address : Word
  /-- The offset that was asked for. -/
  wanted : Int
  /-- The offset that the word stores. -/
  stored : Int
deriving DecidableEq, Repr

/-- The word of an instruction. -/
structure Encoded where
  /-- The word. -/
  word : Word
  /-- The offset, if the word does not store it. -/
  loss : Option OffsetLoss
deriving DecidableEq, Repr

namespace Site

/-- The register that a token names. -/
def register (token : String) : Except LineError Byte :=
  match Register.ofName? token with
  | some register => .ok register
  | none => .error (.unknownRegister token)

/-- The integer that a token stands for in a place of the given width. -/
def immediate (site : Site) (width : Nat) (token : String) : Except LineError Int :=
  match Immediate.ofToken? token with
  | some (.value value) => .ok value
  | some (.beyond limit) => .error (.outOfRange ⟨limit, width⟩)
  | none =>
    match site.labels.address? token with
    | some target => .ok ((target.toNat : Int) - (site.address.toNat : Int))
    | none => .error (.malformed (.unresolved token))

/-- Fills one slot with an operand. -/
def fill (site : Site) (width : Nat) (fields : Fields) (operand : Slot × String) :
    Except LineError Fields :=
  match operand.1 with
  | .rd => (register operand.2).map fun rd => { fields with rd }
  | .rs1 => (register operand.2).map fun rs1 => { fields with rs1 }
  | .rs2 => (register operand.2).map fun rs2 => { fields with rs2 }
  | .imm => (site.immediate width operand.2).map fun imm => { fields with imm }

/-- The fields of an operation with its operands, read from left to right. -/
def fields (site : Site) (op : Op) (operands : List String) : Except LineError Fields :=
  if operands.length = op.slots.length then
    (op.slots.zip operands).foldlM (site.fill op.format.immediateWidth) op.bareFields
  else .error (.malformed (.operandCount op.mnemonic op.slots.length operands.length))

/-- What the word of a branch or jump stores instead of the offset, if it does not store it. -/
def loss? (site : Site) (op : Op) (fields : Fields) (word : Word) : Option OffsetLoss :=
  if op.format.hasOffset && !op.format.stores fields.imm then
    some ⟨op, site.address, fields.imm, op.format.immediate word⟩
  else none

/-- Encodes an operation with its operands. -/
def encodeOp (site : Site) (op : Op) (operands : List String) : Except LineError Encoded :=
  match site.fields op operands with
  | .error error => .error error
  | .ok fields =>
    match op.format.join fields with
    | .error error => .error (.outOfRange error)
    | .ok word => .ok ⟨word, site.loss? op fields word⟩

/-- Encodes the tokens of an instruction. -/
def encode (site : Site) : List String → Except LineError Encoded
  | [] => .error (.malformed .noInstruction)
  | first :: operands =>
    match Op.named? first.toLower with
    | none => .error (.unknownMnemonic first)
    | some op => site.encodeOp op operands

end Site

end MiniRisc
