import MiniRisc.Proofs.Tokens
import MiniRisc.Proofs.VirtualHalt

/-!
# Which labels can be referred to

Whatever stands before the colon is the name of a label, as long as it is not empty and has no
blank. An operand is a token of its own only if it has no comma and no parenthesis, and is looked up
only if it is not shaped like a number. So a source may define labels that no operand means; all
others are meant by their names, at every address.
-/

namespace MiniRisc

/-- The name of a label: not empty, and without blanks. -/
def IsLabelName (name : String) : Prop :=
  name.toList ≠ [] ∧ ∀ c ∈ name.toList, Text.isBlank c = false

/-- A statement defines a label with a name. -/
theorem Statement.isLabelName_of_ofLine {line : List Char} {statement : Statement}
    (h : ofLine line = .ok statement) : ∀ name ∈ statement.label, IsLabelName name := by
  simp only [ofLine] at h
  split at h
  case h_1 =>
    obtain rfl := Except.ok.inj h
    exact fun name hn => absurd hn (Option.not_mem_none name)
  case h_2 =>
    split at h
    case isTrue => cases h
    case isFalse hbad =>
      obtain rfl := Except.ok.inj h
      intro name hn
      obtain rfl := Option.mem_some.1 hn
      simp only [Bool.or_eq_true, not_or, Bool.not_eq_true] at hbad
      obtain ⟨⟨hempty, hblank⟩, -⟩ := hbad
      rw [IsLabelName, String.toList_ofList]
      exact ⟨List.isEmpty_eq_false_iff.1 hempty,
        fun c hc => Bool.eq_false_iff.2 (List.any_eq_false.1 hblank c hc)⟩

namespace Placement

/-- Placing adds only labels with names to a table. -/
theorem isLabelName_of_ofLines {number : Nat} {address : Word} {labels : LabelTable}
    {lines : List (List Char)} {placement : Placement}
    (h : ofLines number address labels lines = .ok placement)
    (hl : ∀ entry ∈ labels, IsLabelName entry.1) :
    ∀ entry ∈ placement.labels, IsLabelName entry.1 := by
  induction lines generalizing number address labels placement with
  | nil =>
    obtain rfl := Except.ok.inj h
    exact hl
  | cons line rest ih =>
    obtain ⟨statement, more, hs, hd, hrest⟩ := ofLines_cons_eq_ok_iff.1 h
    have hmore : ∀ entry ∈ more, IsLabelName entry.1 := by
      rw [(Statement.define_eq_ok_iff.1 hd).1]
      intro entry he
      rcases List.mem_append.1 he with he | he
      · exact hl entry he
      · obtain ⟨name, hn, rfl⟩ := List.mem_map.1 he
        exact Statement.isLabelName_of_ofLine hs name (Option.mem_toList.1 hn)
    obtain ⟨-, hrest⟩ | ⟨-, after, hrest, rfl⟩ := hrest
    case inl => exact ih hrest hmore
    case inr =>
      have hafter : ∀ entry ∈ after.labels, IsLabelName entry.1 := ih hrest hmore
      exact hafter

/-- Every label of a source has a name. -/
theorem isLabelName_of_ofSource {source : String} {placement : Placement}
    (h : ofSource source = .ok placement) {name : String} {target : Word}
    (hn : placement.labels.address? name = some target) : IsLabelName name :=
  isLabelName_of_ofLines h (List.forall_mem_nil _) _ (LabelTable.mem_of_address? hn)

end Placement

/-- A branch to a name has the name as its last token exactly if the name is unbroken. -/
theorem IsLabelName.tokensOfText_branch_iff {name : String} (h : IsLabelName name) :
    tokensOfText ("beq zero, zero, " ++ name) = ["beq", "zero", "zero", name] ↔
      Text.Unbroken name.toList := by
  have hfront : tokensOf "beq zero, zero,".toList = ["beq", "zero", "zero"] := by decide +kernel
  have htext : ("beq zero, zero, " ++ name).toList =
      "beq zero, zero,".toList ++ ' ' :: name.toList := String.toList_append
  have hspace : Text.isBlank ' ' = true := by decide
  rw [tokensOfText, htext, tokensOf_append_cons (.inl hspace), hfront,
    ← tokensOf_eq_singleton_iff h.1 h.2, String.ofList_toList]
  exact List.append_right_inj ["beq", "zero", "zero"]

namespace Site

/-- A label stands for the distance to it, at every address, exactly if its name is not shaped like
a number. -/
theorem immediate_eq_distance_iff {labels : LabelTable} {name : String} {target : Word}
    (hn : labels.address? name = some target) (width : Nat) :
    (∀ address : Word, immediate ⟨address, labels⟩ width name =
        .ok ((target.toNat : Int) - (address.toNat : Int))) ↔
      Immediate.ofToken? name = none := by
  constructor
  · intro h
    -- a number is the same integer at two addresses, a distance is not
    rcases immediate_eq_ok_iff.1 (h 0) with hzero | ⟨hi, -⟩
    case inr => exact hi
    rcases immediate_eq_ok_iff.1 (h 1) with hone | ⟨hi, -⟩
    case inr => exact hi
    have hsame := Immediate.value.inj (Option.some.inj (hzero.symm.trans hone))
    have hz : (0 : Word).toNat = 0 := rfl
    have ho : (1 : Word).toNat = 1 := rfl
    omega
  · intro hi address
    simp only [immediate, hi, hn]

/-- A branch on equality of zeros to a label is encoded as the branch by the distance to it, unless
the distance does not fit in sixteen bits, which is then the error. -/
theorem encode_branch_to_label {labels : LabelTable} {name : String} {target : Word}
    (hn : labels.address? name = some target) (hi : Immediate.ofToken? name = none)
    {address : Word} {offset : Int} (ho : offset = (target.toNat : Int) - (address.toNat : Int)) :
    (Signed.Fits 16 offset → ∃ encoded,
        encode ⟨address, labels⟩ ["beq", "zero", "zero", name] = .ok encoded ∧
        Format.B.join (Fields.branchOnEqual Register.zero Register.zero offset) =
          .ok encoded.word) ∧
      (¬ Signed.Fits 16 offset →
        encode ⟨address, labels⟩ ["beq", "zero", "zero", name] =
          .error (.outOfRange ⟨offset, 16⟩)) := by
  have hop : Op.named? "beq".toLower = some .beq := by decide +kernel
  have hz : Register.ofName? "zero" = some Register.zero := by decide
  have hd : Denotes ⟨address, labels⟩ name offset := .inr ⟨hi, target, hn, ho⟩
  have hf : fields ⟨address, labels⟩ .beq ["zero", "zero", name] =
      .ok (Fields.branchOnEqual Register.zero Register.zero offset) :=
    fields_beq_eq_ok_iff.2 ⟨_, _, _, _, _, offset, rfl, hz, hz, hd, rfl⟩
  constructor
  · intro hfits
    have hw : Format.B.join (Fields.branchOnEqual Register.zero Register.zero offset) = .ok _ :=
      Format.join_eq_ok_iff.2 ⟨.inr hfits, rfl⟩
    exact ⟨_, encode_eq_ok_iff.2 ⟨_, _, .beq, _, _, rfl, hop, hf, hw, rfl⟩, hw⟩
  · intro hfits
    have hw : Op.beq.format.join (Fields.branchOnEqual Register.zero Register.zero offset) =
        .error ⟨offset, 16⟩ :=
      Format.join_eq_error_iff.2 ⟨by decide, hfits, rfl⟩
    simp only [encode, encodeOp, hop, hf, hw]

end Site

namespace Placement

/-- A label of a source is a token of its own in a branch exactly if its name is unbroken, and it
stands for the distance to it at every address exactly if its name is not shaped like a number. A
branch to a label of that kind is encoded as a branch by the distance, or refused because the
distance does not fit. -/
theorem use_of_label_iff {source : String} {placement : Placement}
    (hp : ofSource source = .ok placement) {name : String} {target : Word}
    (hn : placement.labels.address? name = some target) :
    (tokensOfText ("beq zero, zero, " ++ name) = ["beq", "zero", "zero", name] ↔
        Text.Unbroken name.toList) ∧
      ((∀ address : Word, Site.immediate ⟨address, placement.labels⟩ 16 name =
          .ok ((target.toNat : Int) - (address.toNat : Int))) ↔
        Immediate.ofToken? name = none) ∧
      (Immediate.ofToken? name = none → ∀ (address : Word) (offset : Int),
        offset = (target.toNat : Int) - (address.toNat : Int) →
          (Signed.Fits 16 offset → ∃ encoded,
            Site.encode ⟨address, placement.labels⟩ ["beq", "zero", "zero", name] =
              .ok encoded ∧
            Format.B.join (Fields.branchOnEqual Register.zero Register.zero offset) =
              .ok encoded.word) ∧
          (¬ Signed.Fits 16 offset →
            Site.encode ⟨address, placement.labels⟩ ["beq", "zero", "zero", name] =
              .error (.outOfRange ⟨offset, 16⟩))) := by
  have hname := isLabelName_of_ofSource hp hn
  refine ⟨hname.tokensOfText_branch_iff, Site.immediate_eq_distance_iff hn 16, ?_⟩
  exact fun hi address offset ho => Site.encode_branch_to_label hn hi ho

/-- The label of a loop is a token of its own and stands for the distance to it. -/
theorem use_of_label_iff_loop :
    tokensOfText ("beq zero, zero, " ++ "loop") = ["beq", "zero", "zero", "loop"] ∧
      ∀ address : Word, Site.immediate ⟨address, [("loop", 4)]⟩ 16 "loop" =
        .ok (4 - (address.toNat : Int)) := by
  have hp : ofSource "rst\nloop: beq zero, zero, loop" =
      .ok ⟨[⟨1, 0, ["rst"]⟩, ⟨2, 4, ["beq", "zero", "zero", "loop"]⟩], [("loop", 4)]⟩ := by
    decide +kernel
  have hn : LabelTable.address? [("loop", 4)] "loop" = some 4 := by decide
  obtain ⟨htokens, hdistance, -⟩ := use_of_label_iff hp hn
  have hi : Immediate.ofToken? "loop" = none := by decide +kernel
  have hu : Text.Unbroken "loop".toList := by decide +kernel
  exact ⟨htokens.2 hu, hdistance.2 hi⟩

/-- A label with a comma is accepted, but a branch to it has one operand too many; and a label that
is shaped like a number is accepted, but stands for the number in a branch. -/
theorem labels_without_use :
    (∃ placement, ofSource "a,b: beq zero, zero, a,b" = .ok placement ∧
      placement.labels.address? "a,b" = some 0 ∧
      tokensOfText ("beq zero, zero, " ++ "a,b") = ["beq", "zero", "zero", "a", "b"]) ∧
    ∃ placement, ofSource "8: beq zero, zero, 8" = .ok placement ∧
      placement.labels.address? "8" = some 0 ∧
      Site.immediate ⟨0, placement.labels⟩ 16 "8" = .ok 8 := by
  have hcomma : ofSource "a,b: beq zero, zero, a,b" =
      .ok ⟨[⟨1, 0, ["beq", "zero", "zero", "a", "b"]⟩], [("a,b", 0)]⟩ := by
    decide +kernel
  have hnumber : ofSource "8: beq zero, zero, 8" =
      .ok ⟨[⟨1, 0, ["beq", "zero", "zero", "8"]⟩], [("8", 0)]⟩ := by
    decide +kernel
  have htokens : tokensOfText ("beq zero, zero, " ++ "a,b") =
      ["beq", "zero", "zero", "a", "b"] := by
    decide +kernel
  have hi : Site.immediate ⟨0, [("8", 0)]⟩ 16 "8" = .ok 8 := by decide +kernel
  exact ⟨⟨_, hcomma, rfl, htokens⟩, _, hnumber, rfl, hi⟩

end Placement

end MiniRisc
