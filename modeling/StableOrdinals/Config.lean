import StableOrdinals.Files.Directories
import StableOrdinals.Reservations
import StableOrdinals.World

/-!
# Configuration

The configuration names the annotation that holds the reservations and the directory of the object
store. It is read from a file below the home directory; without that file the defaults hold.
-/

namespace StableOrdinals

structure Config where
  annotationKey : Text
  storeDirectory : Path
  deriving DecidableEq, Repr

inductive ConfigError
  | missing (path : Path)
  /-- The cause is given in the words of the format. -/
  | unreadable (cause : Text)
  | emptyKey (path : Path)
  | notWritable (path : Path)
  | noDirectory (path : Path) (cause : SystemError)
  /-- It cannot be told whether there is a configuration. -/
  | unreachable (path : Path) (cause : SystemError)
  deriving DecidableEq, Repr

namespace ConfigError

def message : ConfigError → Text
  | missing path => "Config not found at " ++ path
  | unreadable cause => "Failed to parse config: " ++ cause
  | emptyKey path => "annotation_key in " ++ path ++ " must not be empty"
  | notWritable path => "Failed to create config file at " ++ path
  | noDirectory path cause =>
    "Failed to write config file: " ++ cause.report "cannot create directories" path
  | unreachable path cause => cause.report "status" path

/-- Whether the trouble lies with the system and not with the configuration. -/
def isUnreachable : ConfigError → Bool
  | unreachable .. => true
  | _ => false

end ConfigError

namespace Environment

variable (environment : Environment)

def configDirectory : Path := environment.homeDirectory.append ".slotctl"

def configPath : Path := environment.configDirectory.append "config.yaml"

/-- The store directory that a configuration file names: a tilde in front stands for the home
directory, and a relative path starts at the directory of that file. -/
def expand (value : Text) (configFile : Path) : Path :=
  if value = "~" then environment.homeDirectory
  else if value.take 2 = "~/" then environment.homeDirectory.append (value.drop 2)
  else if Path.isAbsolute value then value
  else configFile.parent.append value

end Environment

namespace Config

variable (environment : Environment)

def default : Config where
  annotationKey := Reservations.defaultKey
  storeDirectory := environment.configDirectory.append "objects"

/-- The text of a scalar, and no text for anything else. -/
def textOf (node : Option Document.Node) : Text := (node.bind (·.text?)).getD []

def ofDocument (path : Path) (document : Document) : Except ConfigError Config := do
  let key ← (document.find? "annotation_key").mapError .unreadable
  if key.isSome ∧ textOf key = [] then .error (.emptyKey path)
  else
    let directory ← (document.find? "store_dir").mapError .unreadable
    .ok
      { annotationKey := if key.isSome then textOf key else Reservations.defaultKey
        storeDirectory :=
          if textOf directory = [] then (default environment).storeDirectory
          else environment.expand (textOf directory) path }

def ofContent (path : Path) (content : Text) : Except ConfigError Config := do
  let document ← (environment.format.read content).mapError .unreadable
  ofDocument environment path document

def isPresentAt (files : Files) (path : Path) : Except ConfigError Bool :=
  (files.existsAt path).mapError (.unreachable path)

def loadFile (files : Files) (path : Path) : Except ConfigError Config := do
  if ← isPresentAt files path then
    match files.read? path with
    | none => .error (.unreadable (environment.format.unopened path))
    | some content => ofContent environment path content
  else .error (.missing path)

def isPresent (files : Files) : Except ConfigError Bool :=
  isPresentAt files environment.configPath

def load (files : Files) : Except ConfigError Config := do
  if ← isPresent environment files then loadFile environment files environment.configPath
  else .ok (default environment)

def defaultText : Text :=
  "# slotctl configuration\n\n"
    ++ "# Annotation on each workload object that holds its reserved (deleted)\n"
    ++ "# ordinals as a JSON array, e.g. \"[2, 4]\".\n"
    ++ "annotation_key: \"delete-slots\"\n\n"
    ++ "# Where workload objects are stored. Empty = ~/.slotctl/objects\n"
    ++ "store_dir: \"\"\n"

def writeDefault (files : Files) : Except ConfigError Unit × Files :=
  let path := environment.configPath
  match files.makeDirectories path.parent with
  | (.error cause, files) => (.error (.noDirectory path.parent cause), files)
  | (.ok (), files) =>
    match files.write? path defaultText with
    | none => (.error (.notWritable path), files)
    | some files => (.ok (), files)

/-- Write the default configuration, unless there is one already. -/
def createDefault (files : Files) : Except ConfigError Unit × Files :=
  match isPresent environment files with
  | .error cause => (.error cause, files)
  | .ok true => (.ok (), files)
  | .ok false => writeDefault environment files

end Config

end StableOrdinals
