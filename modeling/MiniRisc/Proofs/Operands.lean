import Mathlib.Data.List.Forall2
import MiniRisc.Assembly.Encode
import MiniRisc.Proofs.Decoding

/-!
# What operands say

Every slot of an operation speaks about one place of the fields. Filling the slots succeeds with
given fields exactly if every operand says what its place holds and all other places are those
that the operation starts with. Encoding is described from this in both directions.
-/

namespace MiniRisc

/-- A composite computation succeeds if its parts do, one after the other. -/
theorem bind_eq_ok {ε α β : Type} {first : Except ε α} {next : α → Except ε β} {result : β} :
    (first >>= next) = .ok result ↔ ∃ middle, first = .ok middle ∧ next middle = .ok result := by
  cases first <;> simp [Bind.bind, Except.bind]

/-- A mapped computation succeeds if the computation does. -/
theorem map_eq_ok {ε α β : Type} {first : Except ε α} {f : α → β} {result : β} :
    first.map f = .ok result ↔ ∃ middle, first = .ok middle ∧ f middle = result := by
  cases first <;> simp [Except.map]

/-- A mapped computation fails if the computation does. -/
theorem map_eq_error {ε α β : Type} {first : Except ε α} {f : α → β} {error : ε} :
    first.map f = .error error ↔ first = .error error := by
  cases first <;> simp [Except.map]

/-- Steps in a row fail because one of them does. -/
theorem exists_of_foldlM_eq_error {ε α β : Type} {f : β → α → Except ε β} {xs : List α}
    {start : β} {error : ε} (h : xs.foldlM f start = .error error) :
    ∃ x ∈ xs, ∃ state, f state x = .error error := by
  induction xs generalizing start with
  | nil => cases h
  | cons x rest ih =>
    rw [List.foldlM_cons] at h
    cases hx : f start x with
    | error first =>
      rw [hx] at h
      obtain rfl : first = error := Except.error.inj h
      exact ⟨x, List.mem_cons_self, start, hx⟩
    | ok next =>
      rw [hx] at h
      obtain ⟨y, hy, state, he⟩ := ih h
      exact ⟨y, List.mem_cons_of_mem x hy, state, he⟩

/-- The fields with the place of one slot taken from others. -/
def Fields.copy (source : Fields) (fields : Fields) : Slot → Fields
  | .rd => { fields with rd := source.rd }
  | .rs1 => { fields with rs1 := source.rs1 }
  | .rs2 => { fields with rs2 := source.rs2 }
  | .imm => { fields with imm := source.imm }

/-- The place of a slot that is not copied stays. -/
theorem Fields.copy_foldl_copy (source : Fields) {slot : Slot} {slots : List Slot}
    (h : slot ∉ slots) (fields other : Fields) :
    (slots.foldl source.copy fields).copy other slot = fields.copy other slot := by
  induction slots generalizing fields with
  | nil => rfl
  | cons first rest ih =>
    have hne : slot ≠ first := fun he => h (he ▸ List.mem_cons_self)
    have hrest : slot ∉ rest := fun hm => h (List.mem_cons_of_mem _ hm)
    rw [List.foldl_cons, ih hrest]
    cases slot <;> cases first <;> first | rfl | exact absurd rfl hne

/-- An operation and its opcodes stay when places of slots are copied. -/
theorem Op.heads_foldl_copy {op : Op} (source : Fields) (slots : List Slot) {fields : Fields}
    (h : op.Heads fields) : op.Heads (slots.foldl source.copy fields) := by
  induction slots generalizing fields with
  | nil => exact h
  | cons first rest ih =>
    refine ih ?_
    cases first <;> exact h

/-- The offsets of words are those of branches and jumps. -/
theorem Op.hasOffset_format_iff {op : Op} :
    op.format.hasOffset = true ↔ op.isBranch = true ∨ op = .jal := by
  cases op <;> decide

/-- An operation is named by its mnemonic and by nothing else. -/
theorem Op.named?_eq_some_iff {name : String} {op : Op} :
    named? name = some op ↔ name = op.mnemonic := by
  constructor
  · intro h
    have hm := List.find?_some h
    exact (beq_iff_eq.1 hm).symm
  · rintro rfl
    exact named?_mnemonic op

namespace Site

/-- The integer that a token stands for: its own if it is shaped like a number, and the distance
from the instruction to the label otherwise. -/
def Denotes (site : Site) (token : String) (value : Int) : Prop :=
  Immediate.ofToken? token = some (.value value) ∨
    Immediate.ofToken? token = none ∧ ∃ target, site.labels.address? token = some target ∧
      value = (target.toNat : Int) - (site.address.toNat : Int)

/-- An operand says what the place of a slot holds. -/
def Fills (site : Site) (fields : Fields) (slot : Slot) (token : String) : Prop :=
  match slot with
  | .rd => Register.ofName? token = some fields.rd
  | .rs1 => Register.ofName? token = some fields.rs1
  | .rs2 => Register.ofName? token = some fields.rs2
  | .imm => site.Denotes token fields.imm

/-- A token is read as the register that it names. -/
theorem register_eq_ok_iff {token : String} {number : Byte} :
    register token = .ok number ↔ Register.ofName? token = some number := by
  unfold register
  split <;> simp_all

/-- A token is read as the integer that it stands for. -/
theorem immediate_eq_ok_iff {site : Site} {width : Nat} {token : String} {value : Int} :
    site.immediate width token = .ok value ↔ site.Denotes token value := by
  unfold immediate Denotes
  split
  case h_1 number hn => simp [hn]
  case h_2 limit hl => simp [hl]
  case h_3 hn =>
    split
    case h_1 target ht => simp [hn, ht, eq_comm]
    case h_2 ht => simp [hn, ht]

/-- What an operand says is about the place of its slot alone. -/
theorem fills_copy {site : Site} {source fields : Fields} {slot : Slot} {token : String} :
    site.Fills (source.copy fields slot) slot token ↔ site.Fills source slot token := by
  cases slot <;> rfl

/-- Filling a slot succeeds if the operand says what the place then holds, and changes no other. -/
theorem fill_eq_ok_iff {site : Site} {width : Nat} {fields after : Fields} {slot : Slot}
    {token : String} :
    site.fill width fields (slot, token) = .ok after ↔
      site.Fills after slot token ∧ after = after.copy fields slot := by
  cases slot <;>
    simp only [fill, map_eq_ok, register_eq_ok_iff, immediate_eq_ok_iff, Fills, Fields.copy]
  all_goals
    constructor
    · rintro ⟨_, h, rfl⟩
      exact ⟨h, rfl⟩
    · rintro ⟨h, he⟩
      exact ⟨_, h, he.symm⟩

/-- Filling slots succeeds with the fields that every operand agrees with and that are otherwise
those of the start. -/
theorem foldlM_fill_eq_ok_iff {site : Site} {width : Nat} {pairs : List (Slot × String)}
    {start fields : Fields} (h : (pairs.map Prod.fst).Nodup) :
    pairs.foldlM (site.fill width) start = .ok fields ↔
      (∀ pair ∈ pairs, site.Fills fields pair.1 pair.2) ∧
        fields = (pairs.map Prod.fst).foldl fields.copy start := by
  induction pairs generalizing start with
  | nil => simp [pure, Except.pure, eq_comm]
  | cons pair rest ih =>
    obtain ⟨slot, token⟩ := pair
    rw [List.map_cons, List.nodup_cons] at h
    simp only [List.foldlM_cons, bind_eq_ok, fill_eq_ok_iff, ih h.2, List.forall_mem_cons,
      List.map_cons, List.foldl_cons]
    constructor
    · rintro ⟨middle, ⟨hf, hm⟩, hrest, he⟩
      have hs : fields.copy start slot = middle := by
        rw [hm, he]
        exact Fields.copy_foldl_copy fields h.1 middle start
      refine ⟨⟨?_, hrest⟩, ?_⟩
      · have hc : site.Fills (fields.copy start slot) slot token := hs ▸ hf
        exact fills_copy.1 hc
      · rw [hs]
        exact he
    · rintro ⟨⟨hf, hrest⟩, he⟩
      refine ⟨fields.copy start slot, ⟨fills_copy.2 hf, ?_⟩, hrest, he⟩
      cases slot <;> rfl

/-- The slots of an operation are written once each. -/
theorem nodup_slots (op : Op) : op.slots.Nodup := by
  cases op <;> decide

/-- Operands are accepted with the fields that they agree with, slot by slot, and that are
otherwise those that the operation starts with. -/
theorem fields_eq_ok_iff {site : Site} {op : Op} {operands : List String} {fields : Fields} :
    site.fields op operands = .ok fields ↔
      List.Forall₂ (site.Fills fields) op.slots operands ∧
        fields = op.slots.foldl fields.copy op.bareFields := by
  unfold Site.fields
  split
  case isTrue hl =>
    have hp : (op.slots.zip operands).map Prod.fst = op.slots :=
      List.map_fst_zip (Nat.le_of_eq hl.symm)
    have hn : ((op.slots.zip operands).map Prod.fst).Nodup := hp.symm ▸ nodup_slots op
    rw [foldlM_fill_eq_ok_iff hn, hp, List.forall₂_iff_zip]
    simp only [hl, true_and, Prod.forall]
  case isFalse hl =>
    simp only [reduceCtorEq, false_iff, not_and]
    exact fun h => absurd h.length_eq.symm hl

/-- A branch or jump loses its offset if its word stores something else of it. -/
theorem loss?_of_join {site : Site} {op : Op} (hj : op.isBranch = true ∨ op = .jal)
    {fields : Fields} {word : Word} (hw : op.format.join fields = .ok word) :
    site.loss? op fields word =
      if op.format.stored fields.imm = fields.imm then none
      else some ⟨op, site.address, fields.imm, op.format.stored fields.imm⟩ := by
  have ho := Op.hasOffset_format_iff.2 hj
  have hr : op.format ≠ .R := fun h => absurd (h ▸ ho) (by decide)
  obtain ⟨hf, rfl⟩ := Format.join_eq_ok_iff.1 hw
  have hi := Format.immediate_place fields (hf.resolve_left hr)
  rw [loss?, ho, hi]
  by_cases hs : op.format.stored fields.imm = fields.imm
  case pos => rw [Format.stores_iff.2 ⟨hf, hs⟩, if_pos hs]; rfl
  case neg =>
    rw [Bool.eq_false_iff.2 fun h => hs (Format.stores_iff.1 h).2, if_neg hs]
    rfl

/-- Other operations lose no offset. -/
theorem loss?_of_not_jump {site : Site} {op : Op} (hj : ¬ (op.isBranch = true ∨ op = .jal))
    (fields : Fields) (word : Word) : site.loss? op fields word = none := by
  rw [loss?, Bool.eq_false_iff.2 (mt Op.hasOffset_format_iff.1 hj)]
  rfl

/-- Tokens are encoded if the first names an operation, the others are accepted as its operands,
and the fields can be joined. -/
theorem encode_eq_ok_iff {site : Site} {tokens : List String} {encoded : Encoded} :
    site.encode tokens = .ok encoded ↔
      ∃ first operands op fields word, tokens = first :: operands ∧
        Op.named? first.toLower = some op ∧ site.fields op operands = .ok fields ∧
        op.format.join fields = .ok word ∧ encoded = ⟨word, site.loss? op fields word⟩ := by
  cases tokens with
  | nil => simp [encode]
  | cons first operands =>
    simp only [encode, encodeOp, List.cons.injEq]
    constructor
    · intro h
      split at h
      case h_1 => cases h
      case h_2 op hn =>
        split at h
        case h_1 => cases h
        case h_2 fields hf =>
          split at h
          case h_1 => cases h
          case h_2 word hw =>
            exact ⟨_, _, op, fields, word, ⟨rfl, rfl⟩, hn, hf, hw, (Except.ok.inj h).symm⟩
    · rintro ⟨_, _, op, fields, word, ⟨rfl, rfl⟩, hn, hf, hw, rfl⟩
      simp only [hn, hf, hw]

end Site

end MiniRisc
