import MiniRisc.Text.Blank

/-!
# Paths

A path is a text cut into pieces at slashes. Empty pieces and single dots name nothing, two dots
lead to the parent directory, every other piece is a name. A slash in front makes a path start at
the root of all files, a slash at the end makes it stand for a directory.
-/

namespace MiniRisc

/-- The pieces of a path. -/
def pathPieces (path : String) : List String :=
  (Text.pieces (· == '/') path.toList).map String.ofList

/-- Whether a piece of a path leaves one where one is. -/
def isIdlePiece (piece : String) : Bool := piece == "" || piece == "."

/-- The parts of a path that lead somewhere. -/
def pathParts (path : String) : List String := (pathPieces path).filter (!isIdlePiece ·)

/-- The last part of a path, unless that leads to a parent directory. -/
def fileName (path : String) : String :=
  match (pathParts path).getLast? with
  | none | some ".." => ""
  | some name => name

/-- The pieces that lead to the directory in which a path names something, slashes at the end
left aside. -/
def directoryPieces (path : String) : List String :=
  (((pathPieces path).reverse.dropWhile (· == "")).drop 1).reverse

/-- Whether a path starts at the root of all files. -/
def isFromRoot (path : String) : Bool := path.toList.head? == some '/'

/-- Whether a path stands for a directory by a slash at its end. -/
def endsInSlash (path : String) : Bool := path.toList.getLast? == some '/'

/-- The number of bytes that a name has at most. -/
def nameLimit : Nat := 255

/-- The number of bytes that a path has at most. -/
def pathLimit : Nat := 4095

end MiniRisc
