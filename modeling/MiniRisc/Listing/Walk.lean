import MiniRisc.Instruction
import MiniRisc.Log
import MiniRisc.Program

/-!
# Reachable instructions

Control can flow from an instruction along edges: to the next instruction, to the target of a
branch or jump, or to both. A call comes back, so it has an edge to the next instruction too; a
jump to an address from a register has no known target, and without a link it ends a path, as
halts and words that stand for no instruction do.

The walk visits instructions in breadth-first order from the entries, each at most once, and stops
when it has visited as many as it may. It collects the edges that it follows, and the visited
addresses without one.
-/

namespace MiniRisc

/-- Why control can flow along an edge. -/
inductive Transfer where
  /-- To the next instruction. -/
  | fallthrough
  /-- An unconditional jump without a link. -/
  | branch
  /-- A conditional branch that is taken. -/
  | condBranch
  /-- A jump that links. -/
  | call
deriving DecidableEq, Repr

/-- The name of the kind in data. -/
def Transfer.title : Transfer → String
  | fallthrough => "fallthrough"
  | branch => "branch"
  | condBranch => "condbranch"
  | call => "call"

/-- A way that control can take. -/
structure Edge where
  /-- The address of the instruction. -/
  source : Word
  /-- The address that control goes to, whether it holds an instruction or not. -/
  target : Word
  /-- Why it can go there. -/
  kind : Transfer
deriving DecidableEq, Repr

/-- The edges of an instruction at an address. -/
def Instruction.edgesFrom (instruction : Instruction) (address : Word) : List Edge :=
  let next : Edge := ⟨address, address + 4, .fallthrough⟩
  let jump (kind : Transfer) : Edge := ⟨address, address + instruction.imm, kind⟩
  match instruction.op with
  | .halt => []
  | .jal => if instruction.rd = 0 then [jump .branch] else [jump .call, next]
  | .jalr => if instruction.rd = 0 then [] else [next]
  | .beq | .bne | .blt | .bge | .bltu | .bgeu => [jump .condBranch, next]
  | _ => [next]

/-- The edges of a word at an address. -/
def Word.edgesFrom (word : Word) (address : Word) : List Edge :=
  if word = Word.virtualHalt then []
  else
    match Instruction.ofWord? word with
    | none => []
    | some instruction => instruction.edgesFrom address

namespace Program

/-- The edges from an address of a program. -/
def edgesFrom (program : Program) (address : Word) : List Edge :=
  match program.fetch? address with
  | none => []
  | some word => word.edgesFrom address

end Program

/-- A walk over a program. -/
structure Walk where
  /-- The visited addresses in the order of the visits. -/
  order : List Word
  /-- The edges of the visited addresses in the same order. -/
  edges : List Edge
  /-- The visited addresses without an edge. -/
  exits : List Word
deriving DecidableEq, Repr

/-- Addresses in ascending order. -/
def sortedAddresses (addresses : List Word) : List Word :=
  addresses.mergeSort fun first second => decide (first ≤ second)

namespace Program

/-- Follows an edge: the walk keeps it, and its target joins the queue if it holds an instruction
and is not visited. -/
def follow (program : Program) (waiting : List Word × Walk) (edge : Edge) : List Word × Walk :=
  let (queue, walk) := waiting
  let queue' :=
    if program.holds edge.target && !walk.order.contains edge.target then queue ++ [edge.target]
    else queue
  (queue', { walk with edges := walk.edges ++ [edge] })

/-- Visits an address: its edges are followed, and without one it is an exit. -/
def enter (program : Program) (address : Word) (queue : List Word) (walk : Walk) :
    List Word × Walk :=
  let walk' := { walk with order := walk.order ++ [address] }
  match program.fetch? address with
  | none => (queue, walk')
  | some word =>
    match word.edgesFrom address with
    | [] => (queue, { walk' with exits := walk'.exits ++ [address] })
    | edges => edges.foldl program.follow (queue, walk')

/-- Following edges visits nothing. -/
theorem order_foldl_follow (program : Program) (edges : List Edge) (waiting : List Word × Walk) :
    (edges.foldl program.follow waiting).2.order = waiting.2.order := by
  induction edges generalizing waiting with
  | nil => rfl
  | cons edge edges ih => exact ih (program.follow waiting edge)

/-- An address that is entered is the last one visited. -/
theorem order_enter (program : Program) (address : Word) (queue : List Word) (walk : Walk) :
    (program.enter address queue walk).2.order = walk.order ++ [address] := by
  unfold enter
  split
  · rfl
  · split
    · rfl
    · exact program.order_foldl_follow _ _

/-- Visits the addresses of a queue and what is reachable from them until `limit` addresses are
visited. -/
def explore (program : Program) (limit : Nat) (queue : List Word) (walk : Walk) : Walk :=
  match queue with
  | [] => walk
  | address :: queue =>
    if limit ≤ walk.order.length then walk
    else if walk.order.contains address then program.explore limit queue walk
    else
      let entered := program.enter address queue walk
      program.explore limit entered.1 entered.2
termination_by (limit - walk.order.length, queue.length)
decreasing_by
  · exact Prod.Lex.right _ (by simp)
  · refine Prod.Lex.left _ _ ?_
    rw [order_enter, List.length_append, List.length_singleton]
    omega

/-- Walks a program from those entries that hold an instruction, visiting at most `limit`. -/
def walk (program : Program) (entries : List Word) (limit : Nat) : Walk :=
  program.explore limit (entries.filter program.holds) ⟨[], [], []⟩

end Program

namespace Walk

/-- The visited addresses in ascending order. -/
def visited (walk : Walk) : List Word := sortedAddresses walk.order

/-- The exits in ascending order. -/
def sortedExits (walk : Walk) : List Word := sortedAddresses walk.exits

/-- The targets of branches, jumps and calls, each once, in ascending order. -/
def targets (walk : Walk) : List Word :=
  sortedAddresses
    ((walk.edges.filter (·.kind != .fallthrough)).map Edge.target).eraseDups

/-- What is told about a walk. -/
def logEntry (walk : Walk) : LogEntry where
  level := .debug
  message := "reachability walk done"
  fields := [("visited", toString walk.order.length), ("edges", toString walk.edges.length),
    ("exits", toString walk.exits.length)]

end Walk

/-- The name that a listing gives to the target of a branch, jump or call. -/
def Word.targetName (address : Word) : String := "loc_" ++ String.ofList address.hexDigits

end MiniRisc
