/-
Journals: lines that tell what a program is doing, each with the level of its importance.

A filter lets a line pass by its source and its level. It is made of directives; of those that match
the source of a line, the one with the longest source decides.
-/
namespace LedgerTotals

/-- the importance of a journal line, or how much of a journal is kept -/
inductive Level where
  | off
  | error
  | warn
  | info
  | debug
  | trace
  deriving DecidableEq

namespace Level

/-- how far down the list of levels -/
def rank : Level → Nat
  | .off => 0
  | .error => 1
  | .warn => 2
  | .info => 3
  | .debug => 4
  | .trace => 5

/-- the name in small letters -/
def name : Level → String
  | .off => "off"
  | .error => "error"
  | .warn => "warn"
  | .info => "info"
  | .debug => "debug"
  | .trace => "trace"

def all : List Level := [.off, .error, .warn, .info, .debug, .trace]

end Level

structure Entry where
  level : Level
  text : String
  deriving DecidableEq

end LedgerTotals
