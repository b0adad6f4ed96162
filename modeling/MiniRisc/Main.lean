import MiniRisc.Tool

/-!
# The command line

The first argument names the tool, the others belong to it. Scripts are carried out on real files.
-/

namespace MiniRisc

/-- The error of a file in the words of this library. -/
def FileError.ofSystem : IO.Error → FileError
  | .noFileOrDirectory .. => .notFound
  | .inappropriateType _ 20 _ => .notDirectory
  | .inappropriateType .. => .isDirectory
  | .invalidArgument _ 36 _ => .nameTooLong
  | .invalidArgument _ 22 _ => .nulInPath
  | .permissionDenied _ code details => .other s!"{details} (os error {code})"
  | error => .other (toString error)

/-- Reads a real file as text. -/
def readFile (path : String) : IO (Except FileError String) := do
  try
    let handle ← IO.FS.Handle.mk path .read
    let content ← handle.readBinToEnd
    match String.fromUTF8? content with
    | some text => return .ok text
    | none => return .error .notText
  catch error => return .error (FileError.ofSystem error)

/-- Writes a real file. -/
def writeFile (path content : String) : IO (Except FileError Unit) := do
  try
    IO.FS.writeFile path content
    return .ok ()
  catch error => return .error (FileError.ofSystem error)

/-- Never comes back. -/
partial def waitForever : IO α := do
  IO.sleep 1000
  waitForever

/-- Carries out a script on real files. -/
def Script.runInIO : Script α → IO α
  | done result => pure result
  | read path next => do (next (← readFile path)).runInIO
  | write path content next => do (next (← writeFile path content)).runInIO
  | endless => waitForever

end MiniRisc

open MiniRisc

def main (arguments : List String) : IO UInt32 := do
  let script := match arguments with
    | [] => none
    | name :: rest => (Tool.named? name).bind (·.script? rest)
  match script with
  | none =>
    IO.eprintln "usage: (asm | run | disasm) ARGUMENTS"
    return Tool.usageCode.toUInt32
  | some script =>
    let outcome ← script.runInIO
    IO.print outcome.output
    IO.eprint outcome.errors
    return outcome.code.toUInt32
