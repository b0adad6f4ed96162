import MiniRisc.Assembly.Error
import MiniRisc.Assembly.Label
import MiniRisc.Text.Lines

/-!
# Source text

A line may define one label, hold one instruction, both or neither; a comment runs from the first
`#` or `;` to the end of the line. Instructions are placed at consecutive multiples of four, and a
label names the address of the next instruction. The table of labels is complete before any
instruction is encoded.
-/

namespace MiniRisc

/-- What a line holds besides its comment. -/
structure Statement where
  /-- The name before the colon. -/
  label : Option String := none
  /-- The instruction, trimmed and perhaps empty. -/
  body : List Char
deriving DecidableEq, Repr

/-- An instruction of a source. -/
structure PlacedLine where
  /-- The number of its line, counted from one. -/
  number : Nat
  /-- Its address. -/
  address : Word
  /-- Its mnemonic and operands. -/
  tokens : List String
deriving DecidableEq, Repr

/-- A source with every instruction and label in its place. -/
structure Placement where
  /-- The instructions in order. -/
  lines : List PlacedLine := []
  /-- All labels. -/
  labels : LabelTable := []
deriving DecidableEq, Repr

/-- Mnemonic and operands of an instruction. Commas and opening parentheses separate like blanks,
closing parentheses vanish, so `20(s1)` gives `20` and `s1`. -/
def tokensOf (body : List Char) : List String :=
  let spaced := body.map fun c => if c = ',' ∨ c = '(' then ' ' else c
  (Text.words (spaced.filter (· != ')'))).map String.ofList

/-- Mnemonic and operands of the text of an instruction. -/
def tokensOfText (text : String) : List String := tokensOf text.toList

/-- A line up to its comment, trimmed. -/
def significantPart (line : List Char) : List Char :=
  Text.trim (line.takeWhile fun c => c != '#' && c != ';')

/-- What a line holds. A colon must follow exactly one name and must be the only one. -/
def Statement.ofLine (line : List Char) : Except Defect Statement :=
  let significant := significantPart line
  match significant.dropWhile (· != ':') with
  | [] => .ok { body := significant }
  | _ :: rest =>
    let name := Text.trim (significant.takeWhile (· != ':'))
    if name.isEmpty || name.any Text.isBlank || rest.contains ':' then
      .error (.badLabel (String.ofList (Text.trim line)))
    else .ok { label := some (String.ofList name), body := Text.trim rest }

/-- The labels after a statement that stands before the instruction at `address`. -/
def Statement.define (statement : Statement) (labels : LabelTable) (address : Word) :
    Except Defect LabelTable :=
  match statement.label with
  | none => .ok labels
  | some name =>
    match labels.define? name address with
    | some more => .ok more
    | none => .error (.duplicateLabel name)

namespace Placement

/-- Places lines of a source of which the first has the given number, when the next instruction
goes to `address` and `labels` are defined before. -/
def ofLines (number : Nat) (address : Word) (labels : LabelTable) :
    List (List Char) → Except AssemblyError Placement
  | [] => .ok { labels }
  | line :: rest =>
    match Statement.ofLine line with
    | .error defect => .error (.atLine number (.malformed defect))
    | .ok statement =>
      match statement.define labels address with
      | .error defect => .error (.atLine number (.malformed defect))
      | .ok labels =>
        if statement.body.isEmpty then ofLines (number + 1) address labels rest
        else (ofLines (number + 1) (address + 4) labels rest).map fun placement =>
          { placement with
            lines := ⟨number, address, tokensOf statement.body⟩ :: placement.lines }

/-- Places the instructions and labels of a source. -/
def ofSource (source : String) : Except AssemblyError Placement :=
  ofLines 1 0 [] (Text.lines source.toList)

end Placement

end MiniRisc
