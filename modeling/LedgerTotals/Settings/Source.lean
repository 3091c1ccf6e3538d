/-
Where settings come from: a file that is named, else the file at the default place if there is one,
else the built-in settings.
-/
import LedgerTotals.Settings.File
import LedgerTotals.Files
import LedgerTotals.Journal
import LedgerTotals.Fault

namespace LedgerTotals

/-- the settings in force, and the path of the file they come from, if they come from one -/
structure Configuration where
  path : Option String
  settings : Settings
  deriving DecidableEq

namespace Configuration

/-- the settings without any file -/
def builtIn : Configuration := ⟨none, .builtIn⟩

def withOverrides (c : Configuration) (o : Overrides) : Configuration :=
  { c with settings := c.settings.withOverrides o }

def defaultPath (directory : String) : String :=
  Path.join (Path.join directory SettingsFile.programName) "config.json"

def ofText (path text : String) : Except Fault Settings :=
  match SettingsFile.ofJson text with
  | .error e => .error ((Fault.of e.message).within ("Failed to parse config file at " ++ path))
  | .ok file => file.accept.mapError fun refusal => .of refusal.message

def load (files : Files) (path : String) : Except Fault Configuration :=
  if files.isFile path then
    match files.readText path with
    | .error e => .error ((Fault.of e.message).within ("Failed to read config file at " ++ path))
    | .ok text => (ofText path text).map fun settings => ⟨some path, settings⟩
  else .error (.of ("The config file is missing '" ++ path ++ "'"))

/-- the file that settings come from, of one that is named and one at the default path -/
def source? (files : Files) (named default : Option String) : Option String :=
  match named with
  | some path => some path
  | none => default.filter files.isFile

/-- the settings in force -/
def resolve (files : Files) (named default : Option String) : Except Fault Configuration :=
  match source? files named default with
  | some path => load files path
  | none => .ok builtIn

def resolveEntry (files : Files) (named default : Option String) : Entry :=
  match named, source? files named default with
  | some path, _ => ⟨.debug, "Using the config file at " ++ path⟩
  | none, some path => ⟨.debug, "Using the default config file at " ++ path⟩
  | none, none => ⟨.debug, "No config file found, using defaults"⟩

/-! ## new files -/

/-- the files with the directory for a new settings file -/
def makeHome (files : Files) (path : String) : Except Fault Files :=
  match Path.parent? path with
  | none => .ok files
  | some above =>
    (files.makeDirectories above).mapError fun e =>
      ((Fault.of e.message).within ("Unable to create directory at " ++ above)).within
        "Unable to create the config directory"

def save (files : Files) (path : String) (settings : Settings) : Except Fault Files :=
  (files.write path (Utf8.encode (SettingsFile.ofSettings settings).toLines)).mapError fun e =>
    ((Fault.of e.message).within ("Unable to write to " ++ path)).within
      "Unable to write config file"

/-- the files with the built-in settings in a new file, or in an old one if `force` says so -/
def create (files : Files) (path : String) (force : Bool) : Except Fault Files :=
  if files.isFile path ∧ force = false then
    .error (.of ("The config file '" ++ path ++ "' already exists, use --force to overwrite it"))
  else (makeHome files path).bind fun files => save files path .builtIn

end Configuration

end LedgerTotals
