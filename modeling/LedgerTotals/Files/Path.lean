/-
Paths: texts that lead to a file or a directory, name after name, with slashes between them.

A path whose first part is empty starts at the root, any other at the working directory. Other parts
that are empty or a single dot lead nowhere else.
-/
import LedgerTotals.Text.Pieces

namespace LedgerTotals.Path

/-- the parts of a path between its slashes; there is at least one -/
def parts (path : String) : List String := (pieces '/' path.toList).map String.ofList

def ofParts (ps : List String) : String := String.intercalate "/" ps

def isAbsolute (path : String) : Bool :=
  match parts path with
  | "" :: _ :: _ => true
  | _ => false

/-- a slash follows the last name -/
def isClosed (path : String) : Bool :=
  match (parts path).reverse with
  | "" :: _ :: _ => true
  | _ => false

/-- a part that leads nowhere else -/
def isIdle (part : String) : Bool := part = "" || part = "."

/-- the greatest number of bytes of a path -/
def limit : Nat := 4095

/-- a part too long for the name of a file or a directory, which has at most 255 bytes -/
def isOverlong (part : String) : Bool := 255 < part.utf8ByteSize

/-- the parts without idle ones at their end; the first part stays -/
def trimParts : List String → List String
  | [] => []
  | p :: ps => p :: (ps.reverse.dropWhile isIdle).reverse

/-- the path of the directory that holds what a path leads to, if the path names one -/
def parent? (path : String) : Option String :=
  match trimParts (parts path) with
  | [] => none
  | [_] => none
  | p :: ps =>
    match trimParts (p :: ps.dropLast) with
    | [""] => some "/"
    | above => some (ofParts above)

def join (directory name : String) : String :=
  if isClosed directory then directory ++ name else directory ++ "/" ++ name

end LedgerTotals.Path
