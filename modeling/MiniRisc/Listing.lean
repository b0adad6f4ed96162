import MiniRisc.Instruction.Text
import MiniRisc.Json.Record
import MiniRisc.Listing.Walk

/-!
# Listings

A listing shows every word of a program with its address and as an instruction, and tells which
are reachable. It may name the targets of branches, jumps and calls; then a name stands on a line
of its own before its address, and in place of the offset of each branch or jump to it.
-/

namespace MiniRisc

/-- A program with a name. -/
structure NamedProgram where
  /-- The name. -/
  name : String
  /-- The program. -/
  program : Program
deriving DecidableEq, Repr

/-- One word of a listing. -/
structure ListingLine where
  /-- Its address. -/
  address : Word
  /-- The word. -/
  word : Word
  /-- The word as an instruction. -/
  text : String
  /-- Whether the walk visits it. -/
  reachable : Bool
deriving DecidableEq, Repr

/-- A listing of a program. -/
structure Listing where
  /-- The name of the program. -/
  name : String
  /-- The address after its last word. -/
  endAddress : Word
  /-- The addresses where the walk starts, as they were given. -/
  entries : List Word
  /-- All words in address order. -/
  lines : List ListingLine
  /-- The edges of the walk. -/
  edges : List Edge
  /-- The named addresses in ascending order; none if names are not wanted. -/
  targets : List Word
deriving DecidableEq, Repr

/-- The operands with another last one. -/
def replaceLast (operands : List String) (last : String) : List String :=
  if operands.isEmpty then [] else operands.dropLast ++ [last]

/-- An instruction at an address, with the name of its target if that has one. -/
def Instruction.listed (instruction : Instruction) (address : Word) (targets : List Word) :
    String :=
  let plain := instruction.written none
  let target := address + instruction.imm
  if instruction.format.hasOffset && targets.contains target then
    { plain with operands := replaceLast plain.operands target.targetName : Written }.text
  else plain.text

/-- A word at an address, with the name of its target if that has one. -/
def Word.listed (word : Word) (address : Word) (targets : List Word) : String :=
  match Instruction.ofWord? word with
  | some instruction => instruction.listed address targets
  | none => word.directive

namespace Listing

/-- The listing that goes with a walk. -/
def ofWalk (source : NamedProgram) (entries : List Word) (walk : Walk) (named : Bool) :
    Listing :=
  let targets := if named then walk.targets else []
  { name := source.name
    endAddress := source.program.endAddress
    entries
    lines := source.program.placed.map fun (address, word) =>
      ⟨address, word, word.listed address targets, walk.order.contains address⟩
    edges := walk.edges
    targets }

/-- Lists a program after a walk from the entries over at most `limit` instructions. -/
def ofProgram (source : NamedProgram) (entries : List Word) (limit : Nat) (named : Bool) :
    Listing :=
  ofWalk source entries (source.program.walk entries limit) named

/-- The text of one word, with the line of its name before it. -/
def lineText (listing : Listing) (showBits : Bool) (line : ListingLine) : String :=
  let name := if listing.targets.contains line.address then line.address.targetName ++ ":\n" else ""
  let bits := if showBits then line.word.binary ++ "  " else ""
  name ++ line.address.shortHex ++ ": " ++ bits ++ line.text ++ "\n"

/-- The listing as text. -/
def text (listing : Listing) (showBits : Bool) : String :=
  String.join (listing.lines.map (listing.lineText showBits))

open Json (ofWord ofWords)

/-- The JSON form of a word of a listing. -/
def lineJson (line : ListingLine) : Json :=
  .object [("addr", ofWord line.address), ("word", .text line.word.binary),
    ("text", .text line.text), ("reachable", .bool line.reachable)]

/-- The JSON form of an edge. -/
def edgeJson (edge : Edge) : Json :=
  .object [("from", ofWord edge.source), ("to", ofWord edge.target),
    ("kind", .text edge.kind.title)]

/-- The JSON form of a named address. -/
def targetJson (target : Word) : Json :=
  .object [("addr", ofWord target), ("name", .text target.targetName)]

/-- The JSON form of a listing. -/
def toJson (listing : Listing) : Json :=
  .object [("name", .text listing.name), ("end", ofWord listing.endAddress),
    ("entries", ofWords listing.entries), ("lines", .list (listing.lines.map lineJson)),
    ("edges", .list (listing.edges.map edgeJson)),
    ("labels", .list (listing.targets.map targetJson))]

end Listing

end MiniRisc
