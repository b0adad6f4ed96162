import Mathlib.Algebra.Group.Nat.Defs
import MiniRisc.Proofs.LabelTarget

/-!
# What instructions do on integers

Execution computes on words. Here its results are said without them: a register is a natural number
or a signed integer, sums and products are those of the integers, shifts multiply and divide by
powers of two, and a word stands for every integer that it is congruent to modulo the word size.
Operands are those before the instruction, also where the destination is one of them.

Every instruction but a halt is executed with the effect described here, or is a load or store that
memory refuses.
-/

namespace MiniRisc

namespace Word

/-- A word stands for the integers that leave its number modulo the word size. -/
def Represents (word : Word) (value : Int) : Prop := (word.toNat : Int) = value % 4294967296

variable {x y : Word} {m n : Int}

/-- Only one word stands for an integer. -/
theorem Represents.unique (hx : x.Represents m) (hy : y.Represents m) : x = y := by
  have he : (x.toNat : Int) = y.toNat := hx.trans hy.symm
  apply BitVec.eq_of_toNat_eq
  omega

/-- A word stands for its number. -/
theorem represents_toNat (word : Word) : word.Represents word.toNat := by
  have hl := word.isLt
  rw [Represents]
  omega

/-- A word stands for its signed reading. -/
theorem represents_toInt (word : Word) : word.Represents word.toInt := by
  have hl := word.isLt
  have hs := BitVec.toInt_eq_toNat_cond word
  rw [Represents]
  split at hs <;> omega

/-- Adding words adds what they stand for. -/
theorem Represents.add (hx : x.Represents m) (hy : y.Represents n) :
    (x + y).Represents (m + n) := by
  have hs := BitVec.toNat_add x y
  rw [Represents] at hx hy ⊢
  omega

/-- Subtracting words subtracts what they stand for. -/
theorem Represents.sub (hx : x.Represents m) (hy : y.Represents n) :
    (x - y).Represents (m - n) := by
  have hs := BitVec.toNat_sub x y
  have hl := y.isLt
  rw [Represents] at hx hy ⊢
  omega

/-- Multiplying words multiplies what they stand for. -/
theorem Represents.mul (hx : x.Represents m) (hy : y.Represents n) :
    (x * y).Represents (m * n) := by
  rw [Represents] at hx hy ⊢
  calc ((x * y).toNat : Int) = ((x.toNat * y.toNat % 4294967296 : Nat) : Int) := by
        simp only [BitVec.toNat_mul, Nat.reducePow]
    _ = (x.toNat : Int) * y.toNat % 4294967296 := by
        rw [Int.natCast_emod, Int.natCast_mul]
        rfl
    _ = m * n % 4294967296 := by rw [hx, hy, ← Int.mul_emod]

/-- Shifting to the left multiplies by a power of two. -/
theorem represents_shiftLeft (word : Word) (amount : Nat) :
    Represents (word <<< amount) (word.toNat * 2 ^ amount : Nat) := by
  have hs : (word <<< amount).toNat = word.toNat * 2 ^ amount % 4294967296 := by
    simp only [BitVec.toNat_shiftLeft, Nat.shiftLeft_eq, Nat.reducePow]
  rw [Represents, hs]
  omega

/-- Shifting to the right divides by a power of two. -/
theorem represents_shiftRight (word : Word) (amount : Nat) :
    Represents (word >>> amount) (word.toNat / 2 ^ amount : Nat) := by
  have hs : (word >>> amount).toNat = word.toNat / 2 ^ amount := by
    rw [BitVec.toNat_ushiftRight, Nat.shiftRight_eq_div_pow]
  exact hs ▸ represents_toNat (word >>> amount)

/-- A truth value stands for one or zero. -/
theorem represents_ofBool {holds : Bool} {p : Prop} [Decidable p] (h : holds = true ↔ p) :
    (Word.ofBool holds).Represents (if p then 1 else 0) := by
  cases holds with
  | false =>
    have hp : ¬ p := fun hp => Bool.false_ne_true (h.2 hp)
    rw [if_neg hp]
    rfl
  | true =>
    have hp : p := h.1 rfl
    rw [if_pos hp]
    rfl

/-- The low twelve bits of a word are its signed reading modulo their number. -/
theorem toNat_lowTwelve (word : Word) : ((word &&& 0xFFF).toNat : Int) = word.toInt % 4096 := by
  have hl := word.isLt
  have hs := BitVec.toInt_eq_toNat_cond word
  have hm : (word &&& 0xFFF).toNat = word.toNat % 4096 := by
    rw [BitVec.toNat_and]
    exact Nat.and_two_pow_sub_one_eq_mod word.toNat 12
  split at hs <;> omega

end Word

/-- Whether an operation writes its destination register. -/
def Op.writes : Op → Bool
  | .sw | .beq | .bne | .blt | .bge | .bltu | .bgeu | .rst | .halt => false
  | _ => true

instance (op : Op) (a b : Word) : Decidable (op.Compares a b) :=
  decidable_of_iff _ (op.taken_iff_compares a b)

namespace State

/-- What a word must be to be the result of an instruction that stands at `here`. -/
def Result (state : State) (instruction : Instruction) (here value : Word) : Prop :=
  let a := state.cpu.get instruction.rs1
  let b := state.cpu.get instruction.rs2
  let imm := instruction.imm.toInt
  match instruction.op with
  | .add => value.Represents (a.toNat + b.toNat)
  | .sub => value.Represents ((a.toNat : Int) - (b.toNat : Int))
  | .mul => value.Represents ((a.toNat : Int) * (b.toNat : Int))
  | .sll => value.Represents (a.toNat * 2 ^ (b.toNat % 32) : Nat)
  | .srl => value.Represents (a.toNat / 2 ^ (b.toNat % 32) : Nat)
  | .slt => value.Represents (if a.toInt < b.toInt then 1 else 0)
  | .sltu => value.Represents (if a.toNat < b.toNat then 1 else 0)
  | .xor => ∀ place < 32, value.getLsbD place = (a.getLsbD place ^^ b.getLsbD place)
  | .or => ∀ place < 32, value.getLsbD place = (a.getLsbD place || b.getLsbD place)
  | .and => ∀ place < 32, value.getLsbD place = (a.getLsbD place && b.getLsbD place)
  | .addi => value.Represents (a.toNat + imm)
  -- the field of the immediate is compared, which is never negative
  | .sltiu => value.Represents (if (a.toNat : Int) < imm % 4096 then 1 else 0)
  | .lw => ∃ address : Word, address.Represents (a.toNat + imm) ∧
      state.data.read address = .ok value
  | .lui => value.Represents imm
  | .auipc => value.Represents (here.toNat + imm)
  | .jal | .jalr => value.Represents (here.toNat + 4)
  | .rvrs => ∀ place < 32, value.getLsbD place = a.getLsbD (31 - place)
  | .sw | .beq | .bne | .blt | .bge | .bltu | .bgeu | .rst | .halt => False

/-- The integer that the next address stands for. -/
def nextAddress (state : State) (instruction : Instruction) (here : Word) : Int :=
  let a := state.cpu.get instruction.rs1
  let b := state.cpu.get instruction.rs2
  let imm := instruction.imm.toInt
  match instruction.op with
  | .jal => here.toNat + imm
  | .jalr => a.toNat + imm
  | op => if op.Compares a b then here.toNat + imm else here.toNat + 4

/-- What an instruction that stands at `here` changes, and what it leaves. -/
structure Effect (before : State) (instruction : Instruction) (here : Word) (after : State) :
    Prop where
  /-- The destination holds the result. -/
  result : instruction.op.writes = true →
    before.Result instruction here (after.cpu.get instruction.rd)
  /-- A reset clears all registers but the stack pointer. -/
  reset : instruction.op = .rst → ∀ register, after.cpu.get register =
    if Register.index register = Register.index Register.stackPointer then
      before.cpu.config.stackTop
    else 0
  /-- Any other instruction keeps the registers that are not its destination. -/
  others : instruction.op ≠ .rst → ∀ register, (instruction.op.writes = true →
    Register.index register ≠ Register.index instruction.rd) →
      after.cpu.get register = before.cpu.get register
  /-- Control goes on to the next address. -/
  next : after.cpu.pc.Represents (before.nextAddress instruction here)
  /-- A store puts its second register into memory. -/
  stored : instruction.op = .sw → ∃ address : Word,
    address.Represents ((before.cpu.get instruction.rs1).toNat + instruction.imm.toInt) ∧
      before.data.write address (before.cpu.get instruction.rs2) = .ok after.data
  /-- Any other instruction keeps the data. -/
  kept : instruction.op ≠ .sw → after.data = before.data
  /-- The set-up stays. -/
  config : after.cpu.config = before.cpu.config

variable {state after : State} {instruction : Instruction} {here : Word}

/-- The address of a load or store stands for the sum of its base and its offset. -/
theorem represents_reach (state : State) (instruction : Instruction) :
    (state.reach instruction).Represents
      ((state.cpu.get instruction.rs1).toNat + instruction.imm.toInt) :=
  (Word.represents_toNat _).add (Word.represents_toInt _)

/-- The successor of an instruction stands for the next address. -/
theorem represents_successor (state : State) (instruction : Instruction) (here : Word) :
    (state.successor instruction here).Represents (state.nextAddress instruction here) := by
  have hhere := Word.represents_toNat here
  have hjump := hhere.add (Word.represents_toInt instruction.imm)
  have hnext : (here + 4).Represents (here.toNat + 4) := hhere.add (Word.represents_toNat 4)
  have hreach := represents_reach state instruction
  have hbranch : ∀ op : Op, ∀ a b : Word,
      (if op.taken a b = true then here + instruction.imm else here + 4).Represents
        (if op.Compares a b then here.toNat + instruction.imm.toInt else here.toNat + 4) := by
    intro op a b
    by_cases hc : op.Compares a b
    · rw [if_pos hc, if_pos ((op.taken_iff_compares a b).2 hc)]
      exact hjump
    · rw [if_neg hc, if_neg fun ht => hc ((op.taken_iff_compares a b).1 ht)]
      exact hnext
  obtain ⟨op, format, raw, rd, rs1, rs2, imm⟩ := instruction
  cases op
  case jal => exact hjump
  case jalr => exact hreach
  all_goals exact hbranch _ _ _

/-- An instruction with a destination writes its result there, and changes no other register. -/
theorem result_of_execute (hw : instruction.op.writes = true)
    (h : state.execute instruction here = (after, none)) :
    ∃ value target, state.Result instruction here value ∧
      after = (state.set instruction.rd value).goTo target := by
  have ha := Word.represents_toNat (state.cpu.get instruction.rs1)
  have hb := Word.represents_toNat (state.cpu.get instruction.rs2)
  have hi := Word.represents_toInt instruction.imm
  have hhere := Word.represents_toNat here
  have hlink : (here + 4).Represents (here.toNat + 4) := hhere.add (Word.represents_toNat 4)
  obtain ⟨op, format, raw, rd, rs1, rs2, imm⟩ := instruction
  -- all but loads and jumps leave the program counter where it is
  have hretired : ∀ value, state.Result ⟨op, format, raw, rd, rs1, rs2, imm⟩ here value →
      (state.set rd value, (none : Option Trap)) = (after, none) →
      ∃ value target, state.Result ⟨op, format, raw, rd, rs1, rs2, imm⟩ here value ∧
        after = (state.set rd value).goTo target :=
    fun value hv he => ⟨value, state.cpu.pc, hv, (Prod.mk.inj he).1.symm⟩
  cases op
  case sw | beq | bne | blt | bge | bltu | bgeu | rst | halt => cases hw
  case lw =>
    obtain ⟨value, hr, rfl⟩ := execute_load rfl h
    exact ⟨value, state.cpu.pc, ⟨_, represents_reach state _, hr⟩, rfl⟩
  case jal | jalr => exact ⟨here + 4, _, hlink, (Prod.mk.inj h).1.symm⟩
  case add => exact hretired _ (ha.add hb) h
  case sub => exact hretired _ (ha.sub hb) h
  case mul => exact hretired _ (ha.mul hb) h
  case sll => exact hretired _ (Word.represents_shiftLeft _ _) h
  case srl => exact hretired _ (Word.represents_shiftRight _ _) h
  case slt => exact hretired _ (Word.represents_ofBool BitVec.slt_iff_toInt_lt) h
  case sltu => exact hretired _ (Word.represents_ofBool BitVec.ult_iff_toNat_lt) h
  case xor => exact hretired _ (fun place _ => BitVec.getLsbD_xor) h
  case or => exact hretired _ (fun place _ => BitVec.getLsbD_or) h
  case and => exact hretired _ (fun place _ => BitVec.getLsbD_and) h
  case addi => exact hretired _ (ha.add hi) h
  case sltiu =>
    have hlow := Word.toNat_lowTwelve imm
    have hless : (state.cpu.get rs1).ult (imm &&& 0xFFF) = true ↔
        ((state.cpu.get rs1).toNat : Int) < imm.toInt % 4096 := by
      rw [BitVec.ult_iff_toNat_lt]
      omega
    exact hretired _ (Word.represents_ofBool hless) h
  case lui => exact hretired _ hi h
  case auipc => exact hretired _ (hhere.add hi) h
  case rvrs =>
    refine hretired _ (fun place hp => ?_) h
    rw [BitVec.getLsbD_reverse, BitVec.getMsbD, decide_eq_true hp, Bool.true_and]

/-- A branch or store leaves the registers as they are. -/
theorem registers_of_execute (hw : instruction.op.writes = false) (hr : instruction.op ≠ .rst)
    (h : state.execute instruction here = (after, none)) :
    after.cpu.registers = state.cpu.registers ∧ after.cpu.config = state.cpu.config := by
  obtain ⟨op, format, raw, rd, rs1, rs2, imm⟩ := instruction
  cases op
  case rst => exact absurd rfl hr
  case sw =>
    obtain ⟨data, -, rfl⟩ := execute_store rfl h
    exact ⟨rfl, rfl⟩
  case beq | bne | blt | bge | bltu | bgeu =>
    have he := (Prod.mk.inj h).1
    subst he
    split <;> exact ⟨rfl, rfl⟩
  case halt =>
    have he := (Prod.mk.inj h).1
    subst he
    exact ⟨rfl, rfl⟩
  all_goals cases hw

/-- A reset that is executed gives every register the value that it has at the start. -/
theorem get_of_reset (ho : instruction.op = .rst)
    (h : state.execute instruction here = (after, none)) (register : Byte) :
    after.cpu.get register =
      if Register.index register = Register.index Register.stackPointer then
        state.cpu.config.stackTop
      else 0 := by
  have he : after.cpu = state.cpu.reset := by
    simp only [execute, ho, Prod.mk.injEq, and_true] at h
    rw [← h]
  rw [he, Cpu.reset, Cpu.get_set]
  split
  case isTrue => rfl
  case isFalse => exact Vector.getElem_replicate (Register.index register).isLt

/-- An instruction that is executed has its effect. -/
theorem effect_of_execute (hh : instruction.op ≠ .halt) (hp : state.cpu.pc = here + 4)
    (h : state.execute instruction here = (after, none)) :
    Effect state instruction here after where
  result := by
    intro hw
    obtain ⟨value, target, hv, rfl⟩ := result_of_execute hw h
    have hget : ((state.set instruction.rd value).goTo target).cpu.get instruction.rd = value :=
      (Cpu.get_set _ _ _ _).trans (if_pos rfl)
    rw [hget]
    exact hv
  reset := fun ho => get_of_reset ho h
  others := by
    intro hr register hd
    cases hw : instruction.op.writes with
    | true =>
      obtain ⟨value, target, -, rfl⟩ := result_of_execute hw h
      exact (Cpu.get_set _ _ _ _).trans (if_neg (hd hw))
    | false =>
      have hs := (registers_of_execute hw hr h).1
      simp only [Cpu.get, hs]
  next := by
    have hs := (pc_data_of_execute hh hp h).1
    rw [hs]
    exact represents_successor state instruction here
  stored := by
    intro ho
    obtain ⟨data, hw, rfl⟩ := execute_store ho h
    exact ⟨_, represents_reach state instruction, hw⟩
  kept := (pc_data_of_execute hh hp h).2
  config := by
    by_cases hr : instruction.op = .rst
    · simp only [execute, hr, Prod.mk.injEq, and_true] at h
      rw [← h]
      rfl
    · cases hw : instruction.op.writes with
      | true =>
        obtain ⟨value, target, -, rfl⟩ := result_of_execute hw h
        rfl
      | false => exact (registers_of_execute hw hr h).2

/-- Every instruction but a halt, also one that no word stands for, is executed with its effect on
integers, or is a load or store at an address that memory refuses, and then changes nothing. -/
theorem execute_on_integers (state : State) (instruction : Instruction) (here : Word)
    (hh : instruction.op ≠ .halt) (hp : state.cpu.pc = here + 4) :
    (∃ after, state.execute instruction here = (after, none) ∧
        Effect state instruction here after) ∨
      ∃ (address : Word) (fault : MemoryFault), (instruction.op = .lw ∨ instruction.op = .sw) ∧
        address.Represents
          ((state.cpu.get instruction.rs1).toNat + instruction.imm.toInt) ∧
        state.data.place address = .error fault ∧
        state.execute instruction here = (state, some (.memory address fault)) := by
  cases he : state.execute instruction here with
  | mk after trap =>
    cases trap with
    | none => exact .inl ⟨after, rfl, effect_of_execute hh hp he⟩
    | some trap =>
      obtain ⟨ho, fault, hf, rfl⟩ := refused_of_execute he
      obtain rfl := execute_of_trap he
      exact .inr ⟨_, fault, ho, represents_reach after instruction, hf, rfl⟩

/-- A jump to four below the address in the register where it leaves its link. -/
def backToLink : Instruction :=
  { op := .jalr, format := .I, raw := 0xFFC080E7, rd := 1, rs1 := 1, imm := 0xFFFFFFFC }

/-- The state in which an instruction at the last address finds the program counter, with two in the
register of the link. -/
def behindLast : State := ((Machine.start {} {}).state.set 1 2).goTo 0

/-- At the last address the link of the jump wraps to zero, and its target is computed from what
the register was before. -/
theorem execute_on_integers_backToLink :
    Instruction.ofWord? 0xFFC080E7 = some backToLink ∧ backToLink.op ≠ .halt ∧
      behindLast.cpu.pc = 0xFFFFFFFC + 4 ∧
      ∃ after, behindLast.execute backToLink 0xFFFFFFFC = (after, none) ∧
        after.cpu.get 1 = 0 ∧ after.cpu.pc = 0xFFFFFFFE := by
  have hh : backToLink.op ≠ .halt := by decide
  have hp : behindLast.cpu.pc = 0xFFFFFFFC + 4 := rfl
  refine ⟨by decide, hh, hp, ?_⟩
  rcases execute_on_integers behindLast backToLink 0xFFFFFFFC hh hp with
    ⟨after, he, heffect⟩ | ⟨_, _, ho, _⟩
  · have hlink : (after.cpu.get 1).Represents (0xFFFFFFFC + 4) := heffect.result rfl
    have hnext : after.cpu.pc.Represents (2 + -4) := heffect.next
    exact ⟨after, he, hlink.unique rfl, hnext.unique rfl⟩
  · exact absurd ho (by decide)

end State

end MiniRisc
