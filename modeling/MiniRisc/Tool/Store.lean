import MiniRisc.Tool.Path
import MiniRisc.Tool.Script

/-!
# A directory as data

Files are kept under their names relative to the directory, with one slash between the parts of a
name. A path is followed piece by piece from the directory or from the root of all files. Each
piece has to be looked up in a directory, so a path through a file or through nothing fails, even
if it would come back by two dots.

Outside the directory only that is known which every system has: the directories above it, the
root, the directories of devices and of temporary files, and the null device, which is always empty.
What is written outside leaves no trace.
-/

namespace MiniRisc

/-- Where the parts of a place are counted from. -/
inductive Anchor where
  /-- The directory itself. -/
  | here
  /-- A directory above it. -/
  | above
  /-- The root of all files. -/
  | root
deriving DecidableEq, Repr

/-- A place for a file or a directory. -/
structure Place where
  /-- Where the parts are counted from. -/
  anchor : Anchor
  /-- The names from there on. -/
  parts : List String := []
deriving DecidableEq, Repr

namespace Place

/-- The place of a name in a directory. -/
def child (place : Place) (name : String) : Place :=
  { place with parts := place.parts ++ [name] }

/-- The place of the parent directory; the root is its own. -/
def parent (place : Place) : Place :=
  if place.anchor = .here && place.parts.isEmpty then ⟨.above, []⟩
  else { place with parts := place.parts.dropLast }

/-- The parts as one name. -/
def name (place : Place) : String := String.intercalate "/" place.parts

/-- Where the first piece of a path is looked up. -/
def start (path : String) : Place := if isFromRoot path then ⟨.root, []⟩ else ⟨.here, []⟩

end Place

/-- What is found at a place. -/
inductive Entry where
  /-- A directory. -/
  | directory
  /-- A file with its content. -/
  | file (content : ByteArray)

/-- What every system has at a place counted from the root. -/
def Entry.standard? : List String → Option Entry
  | [] | ["dev"] | ["tmp"] => some .directory
  | ["dev", "null"] => some (.file .empty)
  | _ => none

/-- The files of a directory. -/
structure Store where
  /-- Names and contents. -/
  files : List (String × ByteArray) := []

namespace Store

/-- The content of a file by its name. -/
def content? (store : Store) (name : String) : Option ByteArray := List.lookup name store.files

/-- Whether files can be put into a directory named by its parts. -/
def isDirectory (store : Store) (parts : List String) : Bool :=
  parts.isEmpty || store.files.any fun file => parts.isPrefixOf (pathParts file.1).dropLast

/-- What is found at a place. -/
def entry? (store : Store) (place : Place) : Option Entry :=
  match place.anchor with
  | .here =>
    if store.isDirectory place.parts then some .directory
    else (store.content? place.name).map .file
  | .above => if place.parts.isEmpty then some .directory else none
  | .root => Entry.standard? place.parts

/-- Follows one piece of a path from a place, which has to be a directory. -/
def follow (store : Store) (place : Place) (piece : String) : Except FileError Place :=
  match store.entry? place with
  | none => .error .notFound
  | some (.file _) => .error .notDirectory
  | some .directory =>
    if isIdlePiece piece then .ok place
    else if piece = ".." then .ok place.parent
    else if nameLimit < piece.utf8ByteSize then .error .nameTooLong
    else .ok (place.child piece)

/-- Follows pieces of a path, unless the path is not one. -/
def walk (store : Store) (path : String) (pieces : List String) : Except FileError Place :=
  if path.toList.contains '\x00' then .error .nulInPath
  else if pathLimit < path.utf8ByteSize then .error .nameTooLong
  else if path.isEmpty then .error .notFound
  else pieces.foldlM store.follow (Place.start path)

/-- Reads a file as text. -/
def read (store : Store) (path : String) : Except FileError String :=
  match store.walk path (pathPieces path) with
  | .error error => .error error
  | .ok place =>
    match store.entry? place with
    | none => .error .notFound
    | some .directory => .error .isDirectory
    | some (.file content) =>
      match String.fromUTF8? content with
      | some text => .ok text
      | none => .error .notText

/-- The place where a file can be written. A slash at the end of a path asks for a directory, so
that only the way to it is followed. -/
def target (store : Store) (path : String) : Except FileError Place :=
  let pieces := if endsInSlash path then directoryPieces path ++ ["."] else pathPieces path
  match store.walk path pieces with
  | .error error => .error error
  | .ok place =>
    match store.entry? place with
    | some .directory => .error .isDirectory
    | _ => .ok place

/-- Puts a file into the directory; what it held before is replaced. -/
def put (store : Store) (name : String) (content : ByteArray) : Store :=
  ⟨store.files.filter (·.1 != name) ++ [(name, content)]⟩

/-- Writes a file. -/
def write (store : Store) (path text : String) : Except FileError Store :=
  (store.target path).map fun place =>
    match place.anchor with
    | .here => store.put place.name text.toUTF8
    | _ => store

end Store

/-- Carries out a script on a directory, if it has an end. -/
def Script.runOn? (script : Script α) (store : Store) : Option (α × Store) :=
  match script with
  | done result => some (result, store)
  | read path next => (next (store.read path)).runOn? store
  | write path content next =>
    match store.write path content with
    | .ok after => (next (.ok ())).runOn? after
    | .error error => (next (.error error)).runOn? store
  | endless => none

/-- Carries out a script that is known to have an end. -/
def Script.runOn [Inhabited α] (script : Script α) (store : Store) : α × Store :=
  (script.runOn? store).getD (default, store)

end MiniRisc
