import MiniRisc.Program
import MiniRisc.Text.Lines
import MiniRisc.Text.Numeral
import MiniRisc.Text.Quoted

/-!
# Program text

A program is stored as text with one word a line, thirty-two binary digits most significant first.
Blanks around a word and blank lines do not count. The first line that is neither blank nor a word
is reported with its number and its trimmed text.
-/

namespace MiniRisc

/-- A line that is neither blank nor a word. -/
structure ProgramError where
  /-- The number of the line, counted from one. -/
  line : Nat
  /-- The trimmed line. -/
  text : String
deriving DecidableEq, Repr

/-- The complaint in words. -/
def ProgramError.message (error : ProgramError) : String :=
  s!"line {error.line}: expected 32 binary digits, found " ++ Text.quote error.text

/-- The word that thirty-two binary digits denote. -/
def Word.ofBinaryDigits? (digits : List Char) : Option Word :=
  if digits.length = 32 then (Text.natural? 2 digits).map (BitVec.ofNat 32) else none

namespace Program

/-- The words of lines of which the first has the given number. -/
def wordsOfLines (number : Nat) : List (List Char) → Except ProgramError (List Word)
  | [] => .ok []
  | line :: rest =>
    let line := Text.trim line
    if line.isEmpty then wordsOfLines (number + 1) rest
    else
      match Word.ofBinaryDigits? line with
      | none => .error ⟨number, String.ofList line⟩
      | some word => (wordsOfLines (number + 1) rest).map (word :: ·)

/-- The program that a text stores. -/
def ofText (text : String) : Except ProgramError Program :=
  (wordsOfLines 1 (Text.lines text.toList)).map fun words => ⟨words.toArray⟩

end Program

end MiniRisc
