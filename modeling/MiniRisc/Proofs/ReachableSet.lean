import Mathlib.Data.List.Nodup
import Mathlib.Order.Bounds.Basic
import MiniRisc.Proofs.Reachability

/-!
# The walk tells exactly what is reachable

Where control can flow is said here once more, without lists: by the cases in which an instruction
leads to its target, and the one in which it leads to the next word. The edges of a walk are those
of its visited addresses, each once, and a walk that may visit all words visits the least set of
addresses that holds the entries and is closed under these edges. So nothing that is told about it
depends on how often or in which order the entries are given.
-/

namespace MiniRisc

/-! ### Where control can flow -/

/-- An instruction at an address leads to another address. -/
inductive Instruction.Leads (instruction : Instruction) (here : Word) : Word → Transfer → Prop
  /-- A jump without a link leads to its target. -/
  | branch (ho : instruction.op = .jal) (hd : instruction.rd = Register.zero) :
    Leads instruction here (here + instruction.imm) .branch
  /-- A jump with a link leads to its target as a call. -/
  | call (ho : instruction.op = .jal) (hd : instruction.rd ≠ Register.zero) :
    Leads instruction here (here + instruction.imm) .call
  /-- A conditional branch leads to its target. -/
  | condBranch (ho : instruction.op.isBranch = true) :
    Leads instruction here (here + instruction.imm) .condBranch
  /-- All but halts and jumps without a link lead to the next word. -/
  | fallthrough (hh : instruction.op ≠ .halt)
      (hj : instruction.op = .jal ∨ instruction.op = .jalr → instruction.rd ≠ Register.zero) :
    Leads instruction here (here + 4) .fallthrough

/-- The word at an address leads to another address. The word that halts leads nowhere, nor does a
word that stands for no instruction. -/
def Program.Leads (program : Program) (source target : Word) (kind : Transfer) : Prop :=
  ∃ word instruction, program.fetch? source = some word ∧ word ≠ Word.virtualHalt ∧
    Instruction.ofWord? word = some instruction ∧ instruction.Leads source target kind

/-- An edge of an instruction is a way that it leads. -/
theorem Instruction.leads_of_mem_edgesFrom {instruction : Instruction} {here : Word} {edge : Edge}
    (h : edge ∈ instruction.edgesFrom here) :
    edge.source = here ∧ instruction.Leads here edge.target edge.kind := by
  obtain ⟨op, format, raw, rd, rs1, rs2, imm⟩ := instruction
  cases op
  case halt => cases h
  case jal =>
    by_cases hd : rd = 0
    · simp only [edgesFrom, if_pos hd, List.mem_singleton] at h
      subst h
      exact ⟨rfl, .branch rfl hd⟩
    · simp only [edgesFrom, if_neg hd, List.mem_pair] at h
      rcases h with rfl | rfl
      · exact ⟨rfl, .call rfl hd⟩
      · exact ⟨rfl, .fallthrough (by nofun) fun _ => hd⟩
  case jalr =>
    by_cases hd : rd = 0
    · simp only [edgesFrom, if_pos hd, List.not_mem_nil] at h
    · simp only [edgesFrom, if_neg hd, List.mem_singleton] at h
      subst h
      exact ⟨rfl, .fallthrough (by nofun) fun _ => hd⟩
  case beq | bne | blt | bge | bltu | bgeu =>
    rcases List.mem_pair.1 h with rfl | rfl
    · exact ⟨rfl, .condBranch rfl⟩
    · exact ⟨rfl, .fallthrough (by nofun) (by nofun)⟩
  all_goals
    obtain rfl := List.mem_singleton.1 h
    exact ⟨rfl, .fallthrough (by nofun) (by nofun)⟩

/-- A way that an instruction leads is one of its edges. -/
theorem Instruction.mem_edgesFrom_of_leads {instruction : Instruction} {here target : Word}
    {kind : Transfer} (h : instruction.Leads here target kind) :
    ⟨here, target, kind⟩ ∈ instruction.edgesFrom here := by
  cases h with
  | branch ho hd =>
    have hd' : instruction.rd = 0 := hd
    simp only [edgesFrom, ho, if_pos hd', List.mem_singleton]
  | call ho hd =>
    have hd' : instruction.rd ≠ 0 := hd
    simp only [edgesFrom, ho, if_neg hd', List.mem_cons, true_or]
  | condBranch ho =>
    obtain ⟨op, format, raw, rd, rs1, rs2, imm⟩ := instruction
    cases op
    case beq | bne | blt | bge | bltu | bgeu => exact List.mem_cons_self
    all_goals cases ho
  | fallthrough hh hj =>
    obtain ⟨op, format, raw, rd, rs1, rs2, imm⟩ := instruction
    cases op
    case halt => exact absurd rfl hh
    case jal =>
      have hd : rd ≠ 0 := hj (.inl rfl)
      simp only [edgesFrom, if_neg hd, List.mem_cons, true_or, or_true]
    case jalr =>
      have hd : rd ≠ 0 := hj (.inr rfl)
      simp only [edgesFrom, if_neg hd, List.mem_singleton]
    case beq | bne | blt | bge | bltu | bgeu => exact List.mem_cons_of_mem _ List.mem_cons_self
    all_goals exact List.mem_cons_self

/-- The edges of an instruction differ in their kinds. -/
theorem Instruction.nodup_edgesFrom (instruction : Instruction) (here : Word) :
    (instruction.edgesFrom here).Nodup := by
  unfold edgesFrom
  dsimp only
  split
  case h_2 | h_3 => split <;> simp
  all_goals simp

namespace Program

variable {program : Program}

/-- The edges from an address are those of the instruction that its word stands for, if the word
stands for one and does not halt. -/
theorem edgesFrom_cases (program : Program) (address : Word) :
    program.edgesFrom address = [] ∨
      ∃ word instruction, program.fetch? address = some word ∧ word ≠ Word.virtualHalt ∧
        Instruction.ofWord? word = some instruction ∧
        program.edgesFrom address = instruction.edgesFrom address := by
  unfold edgesFrom Word.edgesFrom
  split
  case h_1 => exact .inl rfl
  case h_2 word hf =>
    split
    case isTrue => exact .inl rfl
    case isFalse hv =>
      split
      case h_1 => exact .inl rfl
      case h_2 instruction hw => exact .inr ⟨word, instruction, hf, hv, hw, rfl⟩

/-- The edges from an address are the ways that its word leads. -/
theorem mem_edgesFrom_iff {address : Word} {edge : Edge} :
    edge ∈ program.edgesFrom address ↔
      edge.source = address ∧ program.Leads edge.source edge.target edge.kind := by
  constructor
  case mp =>
    intro h
    rcases program.edgesFrom_cases address with he | ⟨word, instruction, hf, hv, hw, he⟩
    · rw [he] at h
      cases h
    · rw [he] at h
      obtain ⟨rfl, hl⟩ := Instruction.leads_of_mem_edgesFrom h
      exact ⟨rfl, word, instruction, hf, hv, hw, hl⟩
  case mpr =>
    rintro ⟨rfl, word, instruction, hf, hv, hw, hl⟩
    simp only [edgesFrom, hf, Word.edgesFrom, if_neg hv, hw]
    exact Instruction.mem_edgesFrom_of_leads hl

/-- No edge from an address is listed twice. -/
theorem nodup_edgesFrom (program : Program) (address : Word) :
    (program.edgesFrom address).Nodup := by
  rcases program.edgesFrom_cases address with he | ⟨_, instruction, -, -, -, he⟩
  · exact he ▸ List.nodup_nil
  · exact he ▸ instruction.nodup_edgesFrom address

/-- An address has no edge if its word leads nowhere. -/
theorem edgesFrom_eq_nil_iff {address : Word} :
    program.edgesFrom address = [] ↔ ∀ target kind, ¬program.Leads address target kind := by
  rw [List.eq_nil_iff_forall_not_mem]
  constructor
  · intro h target kind hl
    exact h ⟨address, target, kind⟩ (mem_edgesFrom_iff.2 ⟨rfl, hl⟩)
  · intro h edge he
    obtain ⟨rfl, hl⟩ := mem_edgesFrom_iff.1 he
    exact h edge.target edge.kind hl

/-! ### The least closed set -/

/-- A set has the entries that hold an instruction, and all that its addresses lead to. -/
structure Closed (program : Program) (entries : List Word) (addresses : Set Word) : Prop where
  /-- Entries that hold an instruction are in the set. -/
  entry : ∀ address ∈ entries, program.holds address = true → address ∈ addresses
  /-- The set is not left for an address that holds an instruction. -/
  leads : ∀ source ∈ addresses, ∀ target kind, program.Leads source target kind →
    program.holds target = true → target ∈ addresses

/-- What is reached is the least closed set. -/
theorem isLeast_reached (program : Program) (entries : List Word) :
    IsLeast {addresses | program.Closed entries addresses}
      {address | program.Reached entries address} := by
  constructor
  · refine ⟨fun address he hh => .entry he hh, fun source hs target kind hl hh => ?_⟩
    have he : ⟨source, target, kind⟩ ∈ program.edgesFrom source := mem_edgesFrom_iff.2 ⟨rfl, hl⟩
    exact Reached.edge hs he hh
  · intro addresses hc address hr
    induction hr with
    | entry he hh => exact hc.entry _ he hh
    | edge _ he hh ih =>
      obtain ⟨rfl, hl⟩ := mem_edgesFrom_iff.1 he
      exact hc.leads _ ih _ _ hl hh

/-- What is reached from some entries is reached from more of them. -/
theorem Reached.mono {entries others : List Word} (h : entries ⊆ others) {address : Word}
    (hr : program.Reached entries address) : program.Reached others address := by
  induction hr with
  | entry he hh => exact .entry (h he) hh
  | edge _ he hh ih => exact ih.edge he hh

/-! ### The visits -/

/-- The walk visits reached addresses only, as long as only such wait. -/
theorem reached_of_mem_visit {entries queue visited : List Word} {limit : Nat}
    (hq : ∀ address ∈ queue, program.Reached entries address)
    (hv : ∀ address ∈ visited, program.Reached entries address) :
    ∀ address ∈ program.visit limit queue visited, program.Reached entries address := by
  fun_induction visit program limit queue visited with
  | case1 => exact hv
  | case2 => exact hv
  | case3 _ _ _ _ _ ih => exact ih (List.forall_mem_cons.1 hq).2 hv
  | case4 visited address queue _ _ visited' ih =>
    obtain ⟨ha, hq⟩ := List.forall_mem_cons.1 hq
    refine ih (fun other ho => ?_) (List.forall_mem_cons.2 ⟨ha, hv⟩)
    rcases List.mem_append.1 ho with ho | ho
    · exact hq other ho
    · obtain ⟨⟨edge, he, rfl⟩, hh, -⟩ := mem_discoveries.1 ho
      exact ha.edge he hh

variable {entries : List Word} {limit : Nat}

/-- A walk visits reached addresses only. -/
theorem reached_of_mem_order {address : Word}
    (h : address ∈ (program.walk entries limit).order) : program.Reached entries address := by
  have hstart : ∀ other ∈ entries.filter program.holds, program.Reached entries other := by
    intro other ho
    obtain ⟨he, hh⟩ := List.mem_filter.1 ho
    exact .entry he hh
  rw [order_walk, List.mem_reverse] at h
  exact reached_of_mem_visit hstart (by simp) address h

/-- With a limit of at least the number of words, a walk visits exactly what is reached. -/
theorem mem_order_iff (hl : program.words.size ≤ limit) {address : Word} :
    address ∈ (program.walk entries limit).order ↔ program.Reached entries address :=
  ⟨reached_of_mem_order, fun hr => mem_sortedAddresses.1 (mem_visited_of_reached hl hr)⟩

/-- The walk visits no address that is visited. -/
theorem nodup_visit {queue visited : List Word} (h : visited.Nodup) :
    (program.visit limit queue visited).Nodup := by
  fun_induction visit program limit queue visited with
  | case1 => exact h
  | case2 => exact h
  | case3 _ _ _ _ _ ih => exact ih h
  | case4 _ _ _ _ hseen _ ih =>
    exact ih (List.nodup_cons.2 ⟨fun hm => hseen (List.contains_iff_mem.2 hm), h⟩)

/-- No address is visited twice. -/
theorem nodup_order : (program.walk entries limit).order.Nodup := by
  rw [order_walk, List.nodup_reverse]
  exact nodup_visit List.nodup_nil

/-- No edge of a walk is listed twice: its source is visited once, and lists it once. -/
theorem nodup_edges : (program.walk entries limit).edges.Nodup := by
  rw [edges_walk]
  refine List.nodup_flatMap.2 ⟨fun address _ => program.nodup_edgesFrom address, ?_⟩
  refine nodup_order.imp fun {first second} hne => ?_
  intro edge hfirst hsecond
  have hf := (mem_edgesFrom_iff.1 hfirst).1
  have hs := (mem_edgesFrom_iff.1 hsecond).1
  exact hne (hf.symm.trans hs)

end Program

/-- The order in which addresses are given does not change how they are sorted. -/
theorem sortedAddresses_eq_of_perm {first second : List Word} (h : first.Perm second) :
    sortedAddresses first = sortedAddresses second := by
  have hsorted : ∀ addresses : List Word,
      (sortedAddresses addresses).Pairwise fun a b => decide (a ≤ b) = true := by
    refine fun addresses => List.pairwise_mergeSort (fun a b c hab hbc => ?_) (fun a b => ?_) _
    · exact decide_eq_true (BitVec.le_trans (of_decide_eq_true hab) (of_decide_eq_true hbc))
    · simpa using BitVec.le_total a b
  refine List.Perm.eq_of_pairwise (fun a b _ _ hab hba => ?_) (hsorted first) (hsorted second) ?_
  · exact BitVec.le_antisymm (of_decide_eq_true hab) (of_decide_eq_true hba)
  · exact ((List.mergeSort_perm _ _).trans h).trans (List.mergeSort_perm _ _).symm

/-- A walk tells exactly where control can flow from the entries. -/
structure Walk.Exact (walk : Walk) (program : Program) (entries : List Word) : Prop where
  /-- The visited addresses are the least set that has the entries and is not left. -/
  visited_least :
    IsLeast {addresses | program.Closed entries addresses} {address | address ∈ walk.visited}
  /-- No address is visited twice. -/
  visited_nodup : walk.visited.Nodup
  /-- The edges are those of the visited addresses. -/
  mem_edges : ∀ edge, edge ∈ walk.edges ↔
    edge.source ∈ walk.visited ∧ program.Leads edge.source edge.target edge.kind
  /-- No edge is listed twice. -/
  edges_nodup : walk.edges.Nodup
  /-- The exits are the visited addresses that lead nowhere. -/
  mem_exits : ∀ address, address ∈ walk.sortedExits ↔
    address ∈ walk.visited ∧ ∀ target kind, ¬program.Leads address target kind
  /-- No exit is listed twice. -/
  exits_nodup : walk.sortedExits.Nodup

namespace Program

variable {program : Program} {entries others : List Word} {limit limit' : Nat}

/-- A walk that may visit all words is exact. -/
theorem exact_walk (hl : program.words.size ≤ limit) :
    (program.walk entries limit).Exact program entries where
  visited_least := by
    have hset : {address | address ∈ (program.walk entries limit).visited} =
        {address | program.Reached entries address} :=
      Set.ext fun _ => mem_sortedAddresses.trans (mem_order_iff hl)
    rw [hset]
    exact isLeast_reached program entries
  visited_nodup := List.nodup_mergeSort.2 nodup_order
  mem_edges := by
    intro edge
    rw [mem_edges_iff]
    constructor
    · rintro ⟨address, hv, he⟩
      obtain ⟨rfl, hleads⟩ := mem_edgesFrom_iff.1 he
      exact ⟨hv, hleads⟩
    · rintro ⟨hv, hleads⟩
      exact ⟨edge.source, hv, mem_edgesFrom_iff.2 ⟨rfl, hleads⟩⟩
  edges_nodup := nodup_edges
  mem_exits := by
    intro address
    rw [mem_sortedExits_iff, edgesFrom_eq_nil_iff]
  exits_nodup := by
    rw [Walk.sortedExits, exits_walk]
    exact List.nodup_mergeSort.2 (nodup_order.filter _)

/-- Walks from the same entries visit the same addresses. -/
theorem order_perm (hl : program.words.size ≤ limit) (hl' : program.words.size ≤ limit')
    (h : ∀ address, address ∈ entries ↔ address ∈ others) :
    (program.walk entries limit).order.Perm (program.walk others limit').order := by
  refine (List.perm_ext_iff_of_nodup nodup_order nodup_order).2 fun address => ?_
  rw [mem_order_iff hl, mem_order_iff hl']
  exact ⟨Reached.mono fun _ ha => (h _).1 ha, Reached.mono fun _ ha => (h _).2 ha⟩

/-- A walk that may visit as many addresses as there are words tells exactly where control can flow
from its entries: it visits the least set of addresses that has the entries with an instruction
and is closed under following edges, it has every edge of these addresses once and no other, and
its exits are the visited addresses without an edge. The order and the repetition of the entries
change neither the visited addresses nor the exits, and of the edges only the order. -/
theorem walk_exact (program : Program) (entries : List Word) {limit : Nat}
    (hl : program.words.size ≤ limit) :
    (program.walk entries limit).Exact program entries ∧
    ∀ others limit', (∀ address, address ∈ others ↔ address ∈ entries) →
      program.words.size ≤ limit' →
      (program.walk others limit').visited = (program.walk entries limit).visited ∧
      (program.walk others limit').sortedExits = (program.walk entries limit).sortedExits ∧
      (program.walk others limit').edges.Perm (program.walk entries limit).edges := by
  refine ⟨exact_walk hl, fun others limit' h hl' => ?_⟩
  have hperm := order_perm hl' hl h
  refine ⟨sortedAddresses_eq_of_perm hperm, ?_, ?_⟩
  · rw [Walk.sortedExits, Walk.sortedExits, exits_walk, exits_walk]
    exact sortedAddresses_eq_of_perm (hperm.filter _)
  · rw [edges_walk, edges_walk]
    exact hperm.flatMap_right _

/-- A loop over two instructions, and a halt behind it. -/
def backwardLoop : Program := ⟨#[0x00000013, 0xFE000EE3, Word.virtualHalt]⟩

/-- The walk over a loop goes around it, has the edge back, ends at the halt behind it, and does
not mind entries that are repeated or hold no instruction. -/
theorem walk_exact_loop :
    backwardLoop.words.size ≤ 3 ∧ (4 : Word) ∈ (backwardLoop.walk [0] 3).visited ∧
      ⟨4, 0, .condBranch⟩ ∈ (backwardLoop.walk [0] 3).edges ∧
      (8 : Word) ∈ (backwardLoop.walk [0] 3).sortedExits ∧
      (backwardLoop.walk [2, 0, 2, 0] 3).visited = (backwardLoop.walk [0, 2] 3).visited := by
  have hl : backwardLoop.words.size ≤ 3 := Nat.le_refl 3
  obtain ⟨hexact, -⟩ := walk_exact backwardLoop [0] hl
  have hnext : backwardLoop.Leads 0 4 .fallthrough :=
    ⟨_, _, rfl, by decide, rfl, .fallthrough (by decide) (by decide)⟩
  have hback : backwardLoop.Leads 4 0 .condBranch :=
    ⟨_, _, rfl, by decide, rfl, .condBranch rfl⟩
  have hbehind : backwardLoop.Leads 4 8 .fallthrough :=
    ⟨_, _, rfl, by decide, rfl, .fallthrough (by decide) (by decide)⟩
  have hsame : ∀ address : Word, address ∈ [2, 0, 2, 0] ↔ address ∈ [0, 2] := by
    intro address
    simp only [List.mem_cons, List.not_mem_nil, or_false]
    tauto
  have hclosed := hexact.visited_least.1
  have h0 := hclosed.entry 0 List.mem_cons_self rfl
  have h4 := hclosed.leads 0 h0 4 _ hnext rfl
  have h8 := hclosed.leads 4 h4 8 _ hbehind rfl
  refine ⟨hl, h4, (hexact.mem_edges _).2 ⟨h4, hback⟩, (hexact.mem_exits 8).2 ⟨h8, ?_⟩, ?_⟩
  · rintro target kind ⟨word, _, hf, hv, -⟩
    exact hv (Option.some.inj hf).symm
  · exact ((walk_exact backwardLoop [0, 2] hl).2 [2, 0, 2, 0] 3 hsame hl).1

end Program

end MiniRisc
