/-
Faults: what stopped an action, told from the outermost description down to the innermost cause. A
fault that leaves the library says which part of the work it belongs to.
-/
import LedgerTotals.Text.Named

namespace LedgerTotals

/-- a description and the causes below it, outermost first -/
structure Fault where
  message : String
  causes : List String
  deriving DecidableEq

namespace Fault

/-- a fault without a deeper cause -/
def of (message : String) : Fault := ⟨message, []⟩

/-- the fault as the cause of a wider one -/
def within (f : Fault) (context : String) : Fault := ⟨context, f.message :: f.causes⟩

/-- the description and all causes in one line -/
def chain (f : Fault) : String := String.intercalate ": " (f.message :: f.causes)

end Fault

/-- the part of the work that a fault belongs to -/
inductive Part where
  /-- the settings could not be made, read or accepted -/
  | config
  /-- an input could not be understood -/
  | input
  /-- the output could not be written -/
  | output
  deriving DecidableEq

namespace Part

def name : Part → String
  | .config => "config"
  | .input => "input"
  | .output => "output"

def choices : Choices Part :=
  ⟨[("config", .config), ("input", .input), ("output", .output)], "one of `config`, `input`, `output`"⟩

end Part

structure PartFault where
  part : Part
  fault : Fault
  deriving DecidableEq

def PartFault.message (f : PartFault) : String := f.part.name ++ " error: " ++ f.fault.chain

/-- the fault, if there is one, as one of a part of the work -/
def Part.tag {α : Type} (part : Part) (result : Except Fault α) : Except PartFault α :=
  result.mapError fun fault => ⟨part, fault⟩

end LedgerTotals
