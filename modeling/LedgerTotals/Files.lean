/-
Files: directories and the bytes of files, by the place where they stand.

Paths are followed one part after another. What stops an action on a path is told by the same errors
as on a disk: `read` gives back what `write` has put, and `makeDirectories` makes what is missing on
the way.
-/
import LedgerTotals.Files.Path
import LedgerTotals.Text.Utf8

namespace LedgerTotals

/-- what stands at a place -/
inductive Node where
  | file (bytes : List UInt8)
  | directory
  deriving DecidableEq

/-- why a file or a directory cannot be used -/
inductive FileError where
  | notFound
  | exists
  | notDirectory
  | isDirectory
  | nameTooLong
  | zeroInName
  | notText
  deriving DecidableEq

def FileError.message : FileError → String
  | .notFound => "No such file or directory (os error 2)"
  | .exists => "File exists (os error 17)"
  | .notDirectory => "Not a directory (os error 20)"
  | .isDirectory => "Is a directory (os error 21)"
  | .nameTooLong => "File name too long (os error 36)"
  | .zeroInName => "file name contained an unexpected NUL byte"
  | .notText => "stream did not contain valid UTF-8"

/-- the names on the way to a file or a directory, the last one first; `"/"` is the root, and `".."`
leads out of the working directory -/
abbrev Place := List String

namespace Place

/-- the working directory -/
def here : Place := []

def root : Place := ["/"]

/-- the working directory, or one around it -/
def isAround (place : Place) : Bool := place.all fun name => name = ".."

/-- directories that are there without being stored -/
def isGiven (place : Place) : Bool := place = root || place.isAround

def above (place : Place) : Place :=
  if place = root then root
  else if place.isAround then ".." :: place
  else place.drop 1

/-- the path to the place -/
def text (place : Place) : String :=
  match place.reverse with
  | "/" :: names => "/" ++ Path.ofParts names
  | names => Path.ofParts names

end Place

/-- the nodes at some places; of two for one place the first one counts -/
structure Files where
  nodes : List (Place × Node)

namespace Files

/-- nothing but the working directory -/
def empty : Files := ⟨[]⟩

def get? (files : Files) (place : Place) : Option Node :=
  if place.isGiven then some .directory
  else (files.nodes.find? fun n => n.1 = place).map (·.2)

def put (files : Files) (place : Place) (node : Node) : Files := ⟨(place, node) :: files.nodes⟩

/-! ## following a path -/

/-- where a path leads -/
inductive Target where
  /-- to something -/
  | found (place : Place) (node : Node)
  /-- to a free name in a directory -/
  | free (place : Place)
  /-- to a name in a directory that is too long to stand for anything -/
  | overlong
  /-- nowhere -/
  | lost (e : FileError)
  deriving DecidableEq

/-- the parts of a path followed from a node -/
def follow (files : Files) : Place → Node → List String → Target
  | place, node, [] => .found place node
  | _, .file _, _ :: _ => .lost .notDirectory
  | place, .directory, p :: ps =>
    if Path.isIdle p then follow files place .directory ps
    else if p = ".." then follow files place.above .directory ps
    else if Path.isOverlong p then if ps.isEmpty then .overlong else .lost .nameTooLong
    else match files.get? (p :: place) with
      | some node => follow files (p :: place) node ps
      | none => if ps.isEmpty then .free (p :: place) else .lost .notFound

/-- where a path leads, whether or not a slash follows its last name -/
def target (files : Files) (path : String) : Target :=
  let names := ((Path.parts path).reverse.dropWhile (· = "")).reverse
  if '\x00' ∈ path.toList then .lost .zeroInName
  else if Path.limit < path.utf8ByteSize then .lost .nameTooLong
  else if Path.isAbsolute path then files.follow .root .directory (names.drop 1)
  else if names = [] then .lost .notFound
  else files.follow .here .directory names

def isDirectory (files : Files) (path : String) : Bool :=
  match files.target path with
  | .found _ .directory => true
  | _ => false

/-! ## files -/

def read (files : Files) (path : String) : Except FileError (List UInt8) :=
  match files.target path with
  | .found _ (.file bytes) => if Path.isClosed path then .error .notDirectory else .ok bytes
  | .found _ .directory => .error .isDirectory
  | .free _ => .error .notFound
  | .overlong => .error .nameTooLong
  | .lost e => .error e

def isFile (files : Files) (path : String) : Bool := (files.read path).isOk

def readText (files : Files) (path : String) : Except FileError String :=
  (files.read path).bind fun bytes =>
    match Utf8.decode bytes with
    | .ok cs => .ok (String.ofList cs)
    | .error _ => .error .notText

/-- the files with these bytes in a file, which may be new -/
def write (files : Files) (path : String) (bytes : List UInt8) : Except FileError Files :=
  match files.target path with
  | .found _ .directory => .error .isDirectory
  | .lost e => .error e
  | .overlong => .error (if Path.isClosed path then .isDirectory else .nameTooLong)
  | .found place (.file _) | .free place =>
    if Path.isClosed path then .error .isDirectory else .ok (files.put place (.file bytes))

/-! ## directories -/

def makeDirectory (files : Files) (path : String) : Except FileError Files :=
  match files.target path with
  | .found _ _ => .error .exists
  | .free place => .ok (files.put place .directory)
  | .overlong => .error .nameTooLong
  | .lost e => .error e

/-- the files with a directory where a path of these parts leads, the last part first, and with all
directories on the way -/
def makeParts (files : Files) : List String → Except FileError Files
  | [] => .ok files
  | p :: above =>
    let path := Path.ofParts (p :: above).reverse
    match files.makeDirectory path with
    | .ok files => .ok files
    | .error .notFound => do
      let files ← makeParts files above
      if files.isDirectory path then .ok files else files.makeDirectory path
    | .error e => if files.isDirectory path then .ok files else .error e

/-- the files with a directory where a path leads, and with all directories on the way -/
def makeDirectories (files : Files) (path : String) : Except FileError Files :=
  files.makeParts (Path.parts path).reverse

/-- the files with a file and all directories on the way to it -/
def writeWithin (files : Files) (path : String) (bytes : List UInt8) : Except FileError Files :=
  match Path.parent? path with
  | none => files.write path bytes
  | some above => (files.makeDirectories above).bind (·.write path bytes)

/-! ## differences -/

/-- the files that are new or have other bytes than before -/
def changes (before after : Files) : List (Place × List UInt8) :=
  ((after.nodes.map (·.1)).eraseDups).filterMap fun place =>
    match after.get? place with
    | some (.file bytes) =>
      if before.get? place = some (.file bytes) then none else some (place, bytes)
    | _ => none

end Files

end LedgerTotals
