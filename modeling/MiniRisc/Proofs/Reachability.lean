import Mathlib.Data.List.Perm.Subperm
import MiniRisc.Listing.Walk

/-!
# The walk visits all that is reachable

An address is reached if it is an entry or the target of an edge from a reached address, and holds
an instruction. Between two visits of a walk, every address that a visited one leads to is visited
or waits in the queue. A limit of at least the number of words does not stop the walk before the
queue is empty, unless everything is visited; so everything that is reached is visited.

What a walk collects follows from the order of its visits, since it waits for nothing that holds no
instruction: the order alone is a simpler loop, and the edges and exits are those of its addresses.
-/

namespace MiniRisc

namespace Program

variable {program : Program}

/-- The addresses that hold an instruction and to which control can flow from the entries. -/
inductive Reached (program : Program) (entries : List Word) : Word → Prop
  /-- An entry. -/
  | entry {address : Word} (he : address ∈ entries) (hh : program.holds address = true) :
    Reached program entries address
  /-- The target of an edge. -/
  | edge {address : Word} {edge : Edge} (hr : Reached program entries address)
      (he : edge ∈ program.edgesFrom address) (hh : program.holds edge.target = true) :
    Reached program entries edge.target

/-- The targets of an address that hold an instruction and are not yet visited. -/
def discoveries (program : Program) (visited : List Word) (address : Word) : List Word :=
  ((program.edgesFrom address).map Edge.target).filter fun target =>
    program.holds target && !visited.contains target

/-- The visits alone of a queue and of what is reachable from it until `limit` addresses are
visited; `visited` holds the latest first. -/
def visit (program : Program) (limit : Nat) (queue visited : List Word) : List Word :=
  match queue with
  | [] => visited
  | address :: queue =>
    if limit ≤ visited.length then visited
    else if visited.contains address then program.visit limit queue visited
    else
      let visited' := address :: visited
      program.visit limit (queue ++ program.discoveries visited' address) visited'
termination_by (limit - visited.length, queue.length)
decreasing_by
  · exact Prod.Lex.right _ (by simp)
  · exact Prod.Lex.left _ _ (by simp only [List.length_cons]; omega)

/-- The walk that has visited these addresses, the latest first. -/
def walked (program : Program) (visited : List Word) : Walk where
  order := visited.reverse
  edges := visited.reverse.flatMap program.edgesFrom
  exits := visited.reverse.filter fun address => (program.edgesFrom address).isEmpty

/-- What is reached holds an instruction. -/
theorem Reached.holds {entries : List Word} {address : Word}
    (h : program.Reached entries address) : program.holds address = true := by
  cases h with
  | entry _ hh => exact hh
  | edge _ _ hh => exact hh

/-- What holds of queue and visited addresses between two visits. -/
structure Visiting (program : Program) (queue visited : List Word) : Prop where
  /-- No address is visited twice. -/
  nodup : visited.Nodup
  /-- What is visited holds an instruction. -/
  visited_holds : ∀ address ∈ visited, program.holds address = true
  /-- What waits holds an instruction. -/
  queue_holds : ∀ address ∈ queue, program.holds address = true
  /-- What a visited address leads to is visited or waits. -/
  known : ∀ address ∈ visited, ∀ edge ∈ program.edgesFrom address,
    program.holds edge.target = true → edge.target ∈ visited ∨ edge.target ∈ queue

/-- A discovery is the target of an edge, holds an instruction and is not visited. -/
theorem mem_discoveries {visited : List Word} {address target : Word} :
    target ∈ program.discoveries visited address ↔
      (∃ edge ∈ program.edgesFrom address, edge.target = target) ∧
        program.holds target = true ∧ target ∉ visited := by
  simp [discoveries, List.mem_filter, List.mem_map]

/-- Following edges queues their targets that hold an instruction and are not visited, and keeps the
edges. -/
theorem foldl_follow (program : Program) (edges : List Edge) (queue : List Word) (walk : Walk) :
    edges.foldl program.follow (queue, walk) =
      (queue ++ (edges.map Edge.target).filter fun target =>
          program.holds target && !walk.order.contains target,
        { walk with edges := walk.edges ++ edges }) := by
  induction edges generalizing queue walk with
  | nil => simp
  | cons edge edges ih =>
    rw [List.foldl_cons, follow, ih, List.map_cons, List.filter_cons]
    split <;> simp

/-- An address with an instruction is entered: its discoveries join the queue. -/
theorem enter_walked {address : Word} (hh : program.holds address = true)
    (queue visited : List Word) :
    program.enter address queue (program.walked visited) =
      (queue ++ program.discoveries (address :: visited) address,
        program.walked (address :: visited)) := by
  obtain ⟨word, hw⟩ := Option.isSome_iff_exists.1 hh
  have hword : program.edgesFrom address = word.edgesFrom address := by rw [edgesFrom, hw]
  unfold enter
  rw [hw]
  dsimp only
  split
  case h_1 hexit => simp [walked, discoveries, hword, hexit]
  case h_2 edges hedges =>
    have hsome : word.edgesFrom address ≠ [] := fun hn => hedges hn
    rw [foldl_follow]
    simp [walked, discoveries, hword, hsome, Bool.or_comm]

/-- What is waited for holds an instruction, so a walk comes to that of its visits. -/
theorem explore_walked {limit : Nat} {queue visited : List Word}
    (h : ∀ address ∈ queue, program.holds address = true) :
    program.explore limit queue (program.walked visited) =
      program.walked (program.visit limit queue visited) := by
  fun_induction visit program limit queue visited with
  | case1 => rw [explore]
  | case2 visited address queue hstop =>
    rw [explore, if_pos (by simpa [walked] using hstop)]
  | case3 visited address queue hstop hseen ih =>
    rw [explore, if_neg (by simpa [walked] using hstop), if_pos (by simpa [walked] using hseen)]
    exact ih fun other hm => h other (List.mem_cons_of_mem _ hm)
  | case4 visited address queue hstop hseen visited' ih =>
    rw [explore, if_neg (by simpa [walked] using hstop), if_neg (by simpa [walked] using hseen),
      enter_walked (h address List.mem_cons_self)]
    refine ih fun other hm => ?_
    rcases List.mem_append.1 hm with hm | hm
    · exact h other (List.mem_cons_of_mem _ hm)
    · exact (mem_discoveries.1 hm).2.1

/-- A walk is that of its visits. -/
theorem walk_eq_walked (program : Program) (entries : List Word) (limit : Nat) :
    program.walk entries limit =
      program.walked (program.visit limit (entries.filter program.holds) []) := by
  have hstart : program.walked [] = ⟨[], [], []⟩ := rfl
  rw [walk, ← hstart]
  exact explore_walked fun _ hm => (List.mem_filter.1 hm).2

/-- The addresses of a walk in the order of its visits. -/
theorem order_walk (program : Program) (entries : List Word) (limit : Nat) :
    (program.walk entries limit).order =
      (program.visit limit (entries.filter program.holds) []).reverse := by
  rw [walk_eq_walked, walked]

/-- The edges of a walk are those of its addresses. -/
theorem edges_walk (program : Program) (entries : List Word) (limit : Nat) :
    (program.walk entries limit).edges =
      (program.walk entries limit).order.flatMap program.edgesFrom := by
  rw [walk_eq_walked, walked]

/-- The exits of a walk are its addresses without an edge. -/
theorem exits_walk (program : Program) (entries : List Word) (limit : Nat) :
    (program.walk entries limit).exits =
      (program.walk entries limit).order.filter fun address =>
        (program.edgesFrom address).isEmpty := by
  rw [walk_eq_walked, walked]

/-- Nothing is visited at the start. -/
theorem Visiting.start (entries : List Word) :
    program.Visiting (entries.filter program.holds) [] where
  nodup := List.nodup_nil
  visited_holds := by simp
  queue_holds := fun _ hm => (List.mem_filter.1 hm).2
  known := by simp

/-- An address that was visited before is left out. -/
theorem Visiting.skip {queue visited : List Word} {address : Word}
    (h : program.Visiting (address :: queue) visited) (hv : address ∈ visited) :
    program.Visiting queue visited where
  nodup := h.nodup
  visited_holds := h.visited_holds
  queue_holds := fun other hm => h.queue_holds other (List.mem_cons_of_mem _ hm)
  known := by
    intro other ho edge he hh
    rcases h.known other ho edge he hh with hm | hm
    · exact .inl hm
    · rcases List.mem_cons.1 hm with ht | hq
      · exact .inl (ht ▸ hv)
      · exact .inr hq

/-- An address that is visited leaves the queue, and its discoveries join it. -/
theorem Visiting.visit {queue visited : List Word} {address : Word}
    (h : program.Visiting (address :: queue) visited) (hv : address ∉ visited) :
    program.Visiting (queue ++ program.discoveries (address :: visited) address)
      (address :: visited) where
  nodup := List.nodup_cons.2 ⟨hv, h.nodup⟩
  visited_holds := by
    intro other ho
    rcases List.mem_cons.1 ho with rfl | ho
    · exact h.queue_holds other List.mem_cons_self
    · exact h.visited_holds other ho
  queue_holds := by
    intro other ho
    rcases List.mem_append.1 ho with ho | ho
    · exact h.queue_holds other (List.mem_cons_of_mem _ ho)
    · exact (mem_discoveries.1 ho).2.1
  known := by
    intro other ho edge he hh
    by_cases hm : edge.target ∈ address :: visited
    · exact .inl hm
    · refine .inr (List.mem_append.2 ?_)
      rcases List.mem_cons.1 ho with rfl | ho
      · exact .inr (mem_discoveries.2 ⟨⟨edge, he, rfl⟩, hh, hm⟩)
      · -- a target that waited before is still waiting, since it is not the address visited now
        rcases h.known other ho edge he hh with ht | ht
        · exact absurd (List.mem_cons_of_mem _ ht) hm
        · rcases List.mem_cons.1 ht with ht | ht
          · exact absurd (ht ▸ List.mem_cons_self) hm
          · exact .inl ht

/-- As many different addresses as there are words are all that hold one. -/
theorem mem_of_size_le {visited : List Word} (hn : visited.Nodup)
    (hh : ∀ address ∈ visited, program.holds address = true)
    (hs : program.words.size ≤ visited.length) {address : Word}
    (ha : program.holds address = true) : address ∈ visited := by
  have hsub : visited ⊆ (List.range' 0 program.words.size).map addressOf :=
    fun other ho => mem_of_holds (hh other ho)
  have hlength : ((List.range' 0 program.words.size).map addressOf).length ≤ visited.length := by
    rw [List.length_map, List.length_range']
    exact hs
  have hperm := (List.subperm_of_subset hn hsub).perm_of_length_le hlength
  exact hperm.mem_iff.2 (mem_of_holds ha)

/-- Visits are put before what is visited, in the order that it has. -/
theorem suffix_visit (limit : Nat) (queue visited : List Word) :
    visited <:+ program.visit limit queue visited := by
  fun_induction visit program limit queue visited with
  | case1 => exact List.suffix_refl _
  | case2 => exact List.suffix_refl _
  | case3 _ _ _ _ _ ih => exact ih
  | case4 visited address _ _ _ _ ih => exact (List.suffix_cons address visited).trans ih

/-- The walk keeps what is visited. -/
theorem mem_visit_of_mem {limit : Nat} {queue visited : List Word} {address : Word}
    (h : address ∈ visited) : address ∈ program.visit limit queue visited :=
  (suffix_visit limit queue visited).subset h

/-- With a limit of at least the number of words, the walk visits all that waits, and all that its
visited addresses lead to. -/
theorem visiting_visit {limit : Nat} (hl : program.words.size ≤ limit) {queue visited : List Word}
    (h : program.Visiting queue visited) :
    program.Visiting [] (program.visit limit queue visited) ∧
      ∀ address ∈ queue, address ∈ program.visit limit queue visited := by
  fun_induction visit program limit queue visited with
  | case1 visited => exact ⟨h, fun _ hm => absurd hm List.not_mem_nil⟩
  | case2 visited address queue hstop =>
    have hall : ∀ other, program.holds other = true → other ∈ visited := fun other ho =>
      mem_of_size_le h.nodup h.visited_holds (Nat.le_trans hl hstop) ho
    refine ⟨⟨h.nodup, h.visited_holds, by simp, fun _ _ edge _ hh => .inl (hall _ hh)⟩, ?_⟩
    exact fun other hm => hall other (h.queue_holds other hm)
  | case3 visited address queue _ hv ih =>
    have hv' : address ∈ visited := List.contains_iff_mem.1 hv
    obtain ⟨hend, hqueue⟩ := ih (h.skip hv')
    refine ⟨hend, fun other hm => ?_⟩
    rcases List.mem_cons.1 hm with rfl | hm
    · exact mem_visit_of_mem hv'
    · exact hqueue other hm
  | case4 visited address queue _ hv visited' ih =>
    have hv' : address ∉ visited := fun hm => hv (List.contains_iff_mem.2 hm)
    obtain ⟨hend, hqueue⟩ := ih (h.visit hv')
    refine ⟨hend, fun other hm => ?_⟩
    rcases List.mem_cons.1 hm with rfl | hm
    · exact mem_visit_of_mem List.mem_cons_self
    · exact hqueue other (List.mem_append_left _ hm)

end Program

/-- Sorting addresses keeps them. -/
theorem mem_sortedAddresses {addresses : List Word} {address : Word} :
    address ∈ sortedAddresses addresses ↔ address ∈ addresses :=
  List.mem_mergeSort

/-- With a limit of at least the number of words, a walk visits what is reached. -/
theorem Program.mem_visited_of_reached {program : Program} {entries : List Word} {limit : Nat}
    (hl : program.words.size ≤ limit) {address : Word} (h : program.Reached entries address) :
    address ∈ (program.walk entries limit).visited := by
  obtain ⟨hend, hqueue⟩ := Program.visiting_visit hl (Program.Visiting.start entries)
  rw [Walk.visited, mem_sortedAddresses, order_walk, List.mem_reverse]
  induction h with
  | entry he hh => exact hqueue _ (List.mem_filter.2 ⟨he, hh⟩)
  | edge _ he hh ih => exact (hend.known _ ih _ he hh).resolve_right List.not_mem_nil

/-- A walk has the edges of the addresses that it visits. -/
theorem Program.mem_edges_iff {program : Program} {entries : List Word} {limit : Nat}
    {edge : Edge} :
    edge ∈ (program.walk entries limit).edges ↔
      ∃ address ∈ (program.walk entries limit).visited, edge ∈ program.edgesFrom address := by
  simp only [Walk.visited, mem_sortedAddresses, edges_walk]
  exact List.mem_flatMap

/-- The exits of a walk are the visited addresses without an edge. -/
theorem Program.mem_sortedExits_iff {program : Program} {entries : List Word} {limit : Nat}
    {address : Word} :
    address ∈ (program.walk entries limit).sortedExits ↔
      address ∈ (program.walk entries limit).visited ∧ program.edgesFrom address = [] := by
  simp only [Walk.sortedExits, Walk.visited, mem_sortedAddresses, exits_walk, List.mem_filter,
    List.isEmpty_iff]

end MiniRisc
