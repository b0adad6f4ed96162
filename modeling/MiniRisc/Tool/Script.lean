/-!
# Scripts over files

What a tool does to files is a script: it reads files as text, writes files, and gives a result,
or has no end. A script is data, so what it may read and write can be stated and proved; it is
carried out on a model of a directory or on real files.
-/

namespace MiniRisc

/-- Why a file cannot be read or written. -/
inductive FileError where
  /-- There is no such file, or no such directory to put it in. -/
  | notFound
  /-- The path names a directory. -/
  | isDirectory
  /-- The path leads through a file. -/
  | notDirectory
  /-- The path or a name in it is too long. -/
  | nameTooLong
  /-- The path has a null character in it. -/
  | nulInPath
  /-- The content is not text. -/
  | notText
  /-- Any other reason, in the words of the system. -/
  | other (reason : String)
deriving DecidableEq, Repr

/-- The reason in words. -/
def FileError.message : FileError → String
  | notFound => "No such file or directory (os error 2)"
  | isDirectory => "Is a directory (os error 21)"
  | notDirectory => "Not a directory (os error 20)"
  | nameTooLong => "File name too long (os error 36)"
  | nulInPath => "file name contained an unexpected NUL byte"
  | notText => "stream did not contain valid UTF-8"
  | other reason => reason

/-- A computation that reads and writes files. -/
inductive Script (α : Type) where
  /-- The result. -/
  | done (result : α)
  /-- Reads a file as text and goes on with what it holds. -/
  | read (path : String) (next : Except FileError String → Script α)
  /-- Writes a file, whole or not at all, and goes on. -/
  | write (path content : String) (next : Except FileError Unit → Script α)
  /-- Goes on forever. -/
  | endless

namespace Script

/-- Goes on with another script after the result. -/
def bind (script : Script α) (next : α → Script β) : Script β :=
  match script with
  | done result => next result
  | read path rest => read path fun content => (rest content).bind next
  | write path content rest => write path content fun written => (rest written).bind next
  | endless => endless

instance : Monad Script where
  pure := done
  bind := bind

/-- Reads one file. -/
def readText (path : String) : Script (Except FileError String) := read path done

/-- Writes one file. -/
def writeText (path content : String) : Script (Except FileError Unit) :=
  write path content done

end Script

end MiniRisc
