/-!
# What a tool ends with

A tool ends with an exit code and with text for its two output streams. A failure is told by its
outermost message and the causes below it, each on a line of its own and numbered if there are
several. A tool that asks its platform for what that cannot give is stopped, with an exit code of
its own.
-/

namespace MiniRisc

/-- A failure with its causes, the outermost first. -/
structure Failure where
  /-- What could not be done. -/
  message : String
  /-- Why, from the outside in. -/
  causes : List String := []
deriving DecidableEq, Inhabited, Repr

/-- The lines of numbered causes. -/
def numberedCauses (causes : List String) : String :=
  String.join (causes.zipIdx.map fun (cause, place) =>
    let number := toString place
    String.ofList (List.replicate (5 - number.length) ' ') ++ number ++ ": " ++ cause ++ "\n")

/-- The failure as it is shown to the user. -/
def Failure.report (failure : Failure) : String :=
  "Error: " ++ failure.message ++ "\n" ++
    match failure.causes with
    | [] => ""
    | [cause] => "\nCaused by:\n    " ++ cause ++ "\n"
    | causes => "\nCaused by:\n" ++ numberedCauses causes

/-- What a tool ends with. -/
structure Outcome where
  /-- Zero if all went well. -/
  code : Nat := 0
  /-- The text for the standard output. -/
  output : String := ""
  /-- The text for the standard error stream. -/
  errors : String := ""
deriving DecidableEq, Inhabited, Repr

/-- The outcome of a failure, after text that was shown before. -/
def Outcome.failed (failure : Failure) (shown : String) : Outcome :=
  { code := 1, errors := shown ++ failure.report }

/-- Why a platform stops a tool. -/
inductive Stop where
  /-- More memory is asked for than one piece of memory can have. -/
  | capacity
  /-- A product is beyond its word. -/
  | product
deriving DecidableEq, Repr

/-- The reason in words. -/
def Stop.message : Stop → String
  | capacity => "capacity overflow"
  | product => "attempt to multiply with overflow"

/-- The exit code of tools that are stopped. -/
def stopCode : Nat := 101

/-- The outcome of a tool that is stopped. The platform also tells where in the tool that was, which
is left out here. -/
def Outcome.stopped (stop : Stop) : Outcome :=
  { code := stopCode, errors := stop.message ++ "\n" }

end MiniRisc
