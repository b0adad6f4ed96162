import MiniRisc.Json.Form
import MiniRisc.Json.Grammar
import MiniRisc.Listing

/-!
# Platforms

The tools are built on a platform. It reads and writes JSON text for them, and either stops a tool
that multiplies beyond a word or lets the product wrap.
-/

namespace MiniRisc

/-- What the tools are built on. -/
structure Platform where
  /-- The set-up that a JSON text describes. -/
  config? : String → Option Config
  /-- The JSON text of the processor. -/
  stateText : Cpu → String
  /-- The JSON text of a listing. -/
  listingText : Listing → String
  /-- Whether products are checked. -/
  checked : Bool

namespace Platform

/-- The platform with the JSON of this library, where products are checked. -/
def standard : Platform where
  config? := fun text => (Json.parse? text).bind Config.ofJson?
  stateText := fun cpu => cpu.toJson.pretty
  listingText := fun listing => listing.toJson.pretty
  checked := true

/-- Whether the addresses of a row of words cannot all be computed. -/
def refusesRow (platform : Platform) (size : Nat) : Bool :=
  platform.checked && decide (Word.rowLimit < size)

end Platform

end MiniRisc
