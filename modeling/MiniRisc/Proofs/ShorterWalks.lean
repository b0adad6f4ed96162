import Mathlib.Data.Set.Card
import MiniRisc.Proofs.ReachableSet

/-!
# A limit cuts a walk short

A walk with a smaller limit is the beginning of one with a larger limit: both visit the same
addresses in the same order until the smaller limit is used up. The queue may hold addresses that
are visited already, but these use up nothing, so a walk ends before its limit only when everything
that is reachable is visited.
-/

namespace MiniRisc

namespace Program

variable {program : Program} {entries queue visited : List Word} {limit limit' : Nat}

/-- The first visits of a walk are those that it starts with. -/
theorem take_reverse_visit (limit : Nat) (queue visited : List Word) :
    (program.visit limit queue visited).reverse.take visited.length = visited.reverse := by
  have hfirst : visited.reverse <+: (program.visit limit queue visited).reverse :=
    List.reverse_prefix.2 (suffix_visit limit queue visited)
  rw [← List.length_reverse]
  exact (List.prefix_iff_eq_take.1 hfirst).symm

/-- Until the smaller limit is used up, both walks skip and visit the same addresses, so the visits
with the smaller limit are the first ones with the larger limit. -/
theorem reverse_visit_eq_take (hl : limit ≤ limit') (hv : visited.length ≤ limit) :
    (program.visit limit queue visited).reverse =
      (program.visit limit' queue visited).reverse.take limit := by
  -- the induction is along the shorter walk: where it goes on, the longer one does too
  fun_induction visit program limit queue visited with
  | case1 visited =>
    have hlength : visited.reverse.length ≤ limit := by
      rw [List.length_reverse]
      exact hv
    rw [visit, List.take_of_length_le hlength]
  | case2 visited address queue hstop =>
    have hlimit : limit = visited.length := Nat.le_antisymm hstop hv
    rw [hlimit, take_reverse_visit]
  | case3 visited address queue hstop hseen ih =>
    have hgoes : ¬limit' ≤ visited.length := by omega
    rw [visit, if_neg hgoes, if_pos hseen]
    exact ih hv
  | case4 visited address queue hstop hseen visited' ih =>
    have hgoes : ¬limit' ≤ visited.length := by omega
    have hlength : visited'.length ≤ limit := by
      rw [List.length_cons]
      omega
    rw [visit, if_neg hgoes, if_neg hseen]
    exact ih hlength

/-- A walk with a smaller limit visits the first addresses of one with a larger limit. -/
theorem order_eq_take (program : Program) (entries : List Word) (hl : limit ≤ limit') :
    (program.walk entries limit).order = (program.walk entries limit').order.take limit := by
  rw [order_walk, order_walk]
  exact reverse_visit_eq_take hl (Nat.zero_le limit)

/-- The addresses of instructions that are reachable from the entries: those in every set that has
the entries with an instruction and is not left. -/
def reachable (program : Program) (entries : List Word) : Set Word :=
  {address | ∀ addresses, program.Closed entries addresses → address ∈ addresses}

/-- What is reachable is what is reached along edges. -/
theorem mem_reachable_iff {address : Word} :
    address ∈ program.reachable entries ↔ program.Reached entries address := by
  have hleast := isLeast_reached program entries
  constructor
  · intro h
    exact h _ hleast.1
  · intro h addresses hc
    exact hleast.2 hc h

/-- A walk that may visit all words visits as many addresses as are reachable. -/
theorem length_order_of_size_le (hl : program.words.size ≤ limit) :
    (program.walk entries limit).order.length = (program.reachable entries).ncard := by
  have hset : program.reachable entries =
      ((program.walk entries limit).order.toFinset : Set Word) := by
    ext address
    rw [mem_reachable_iff, ← mem_order_iff hl, Finset.mem_coe, List.mem_toFinset]
  rw [hset, Set.ncard_coe_finset, List.toFinset_card_of_nodup nodup_order]

/-- A walk visits as many addresses as its limit allows, up to all that are reachable. -/
theorem length_order (program : Program) (entries : List Word) (limit : Nat) :
    (program.walk entries limit).order.length =
      min limit (program.reachable entries).ncard := by
  -- compared with a walk whose limit also covers all words
  have htake := order_eq_take program entries (Nat.le_max_left limit program.words.size)
  have hall : program.words.size ≤ max limit program.words.size := Nat.le_max_right _ _
  rw [htake, List.length_take, length_order_of_size_le hall]

/-- A smaller limit only cuts a walk short: its edges are the first ones of the walk with the larger
limit, its visited addresses and exits are among those of that walk, every visited address holds an
instruction and is visited once, and there are as many of them as the limit allows, up to all that
are reachable from the entries. -/
theorem walk_cut_short (program : Program) (entries : List Word) (hl : limit ≤ limit') :
    (program.walk entries limit).edges <+: (program.walk entries limit').edges ∧
      (program.walk entries limit).visited ⊆ (program.walk entries limit').visited ∧
      (program.walk entries limit).sortedExits ⊆ (program.walk entries limit').sortedExits ∧
      (∀ address ∈ (program.walk entries limit).visited, program.holds address = true) ∧
      (program.walk entries limit).visited.Nodup ∧
      (program.walk entries limit).visited.length =
        min limit (program.reachable entries).ncard := by
  have hfirst : (program.walk entries limit).order <+: (program.walk entries limit').order := by
    rw [order_eq_take program entries hl]
    exact List.take_prefix limit _
  have hedges : (program.walk entries limit).edges <+: (program.walk entries limit').edges := by
    obtain ⟨later, hlater⟩ := hfirst
    refine ⟨later.flatMap program.edgesFrom, ?_⟩
    rw [edges_walk, edges_walk, ← List.flatMap_append, hlater]
  have hvisited : (program.walk entries limit).visited ⊆ (program.walk entries limit').visited :=
    fun address hv => mem_sortedAddresses.2 (hfirst.subset (mem_sortedAddresses.1 hv))
  refine ⟨hedges, hvisited, fun address he => ?_, fun address hv => ?_, ?_, ?_⟩
  · obtain ⟨hv, hleads⟩ := mem_sortedExits_iff.1 he
    exact mem_sortedExits_iff.2 ⟨hvisited hv, hleads⟩
  · exact (reached_of_mem_order (mem_sortedAddresses.1 hv)).holds
  · exact List.nodup_mergeSort.2 nodup_order
  · rw [Walk.visited, sortedAddresses, List.length_mergeSort, length_order]

/-- An entry that is given three times uses up nothing of the limit: the walk over a loop with two
visits visits two addresses. -/
theorem walk_cut_short_loop :
    2 ≤ 3 ∧ (backwardLoop.walk [0, 0, 0] 2).edges <+: (backwardLoop.walk [0, 0, 0] 3).edges ∧
      (backwardLoop.walk [0, 0, 0] 2).visited.length = 2 := by
  have hl : 2 ≤ 3 := by decide
  have hcut := walk_cut_short backwardLoop [0, 0, 0] hl
  have hstart : backwardLoop.Reached [0, 0, 0] 0 := .entry List.mem_cons_self rfl
  have hedge : ⟨0, 4, .fallthrough⟩ ∈ backwardLoop.edgesFrom 0 := by decide
  have hnext : backwardLoop.Reached [0, 0, 0] 4 := hstart.edge hedge rfl
  have hsize : backwardLoop.words.size ≤ 3 := Nat.le_refl 3
  have hsubset : [0, 4] ⊆ (backwardLoop.walk [0, 0, 0] 3).order := by
    intro address hm
    rcases List.mem_pair.1 hm with rfl | rfl
    · exact (mem_order_iff hsize).2 hstart
    · exact (mem_order_iff hsize).2 hnext
  have htwo : 2 ≤ (backwardLoop.walk [0, 0, 0] 3).order.length :=
    (List.subperm_of_subset (by decide) hsubset).length_le
  rw [length_order_of_size_le hsize] at htwo
  exact ⟨hl, hcut.1, hcut.2.2.2.2.2.trans (Nat.min_eq_left htwo)⟩

end Program

end MiniRisc
