import Std.Time.Zoned
import StableOrdinals.Block.Notation
import StableOrdinals.CommandLine.Program
import StableOrdinals.Files.Change

/-!
# The executable

Looks at the files that a command line can concern, runs it on what is there, and carries the
changes out.
-/

namespace StableOrdinals.Main

def bytes (t : Text) : ByteArray := ⟨t.toArray⟩

def string (t : Text) : String :=
  (String.fromUTF8? (bytes t)).getD (String.ofList (t.map fun b => Char.ofNat b.toNat))

/-- What stands at a location. -/
def look (place : Location) : IO (Option Entry) := do
  let path := (← IO.currentDir) / string place.path
  match ← path.metadata.toBaseIO with
  | .ok found =>
    match found.type with
    | .dir => return some .directory
    | .file => return some (.file (← IO.FS.readBinFile path).toList)
    | _ => return some .special
  | .error (.noFileOrDirectory ..) => return none
  | .error _ =>
    -- Where the entry itself can be looked at, it is a link that cannot be followed.
    match ← path.symlinkMetadata.toBaseIO with
    | .ok _ => return some .loop
    | .error _ => return none

def observe (files : Files) (path : Path) : IO Files := do
  let mut files := files
  let mut place := files.origin path
  for component in Path.components (Text.beforeNul path) do
    if component = [] ∨ component = "." then continue
    if component = ".." then
      place := place.tail
      continue
    match ← look (component :: place) with
    | none => return files
    | some entry =>
      files := (files.put? component place entry).getD files
      place := component :: place
  return files

def observeDirectory (files : Files) (path : Path) : IO Files := do
  let files ← observe files path
  match files.locate path with
  | .error _ => return files
  | .ok place =>
    if files.at? place ≠ some .directory then return files
    let mut files := files
    for child in ← ((← IO.currentDir) / string place.path).readDir do
      let name := Text.ofString child.fileName
      if let some entry ← look (name :: place) then
        files := (files.put? name place entry).getD files
    return files

/-- The configuration file and the directory of the store. -/
def survey (environment : Environment) : IO Files := do
  let here := Text.ofString (← IO.currentDir).toString
  let files := Files.empty ((Path.components here).filter (· ≠ [])).reverse
  let files ← observe files here
  let files ← observe files environment.configPath
  match Config.load environment files with
  | .ok config => observeDirectory files config.storeDirectory
  | .error _ => return files

/-- A file is written under another name and then renamed. -/
def carryOut : Files.Change → IO Unit
  | .delete place => do
    let path := (← IO.currentDir) / string place.path
    if ← path.isDir then IO.FS.removeDir path else IO.FS.removeFile path
  | .makeDirectory place => do IO.FS.createDirAll ((← IO.currentDir) / string place.path)
  | .write place content => do
    let path := (← IO.currentDir) / string place.path
    let draft := (← IO.currentDir) / string (place.path ++ ".tmp")
    IO.FS.writeBinFile draft (bytes content)
    IO.FS.rename draft path

def padded (width n : Nat) : Text :=
  let digits := Text.ofNat n
  List.replicate (width - digits.length) ('0' : Byte) ++ digits

/-- The time of day in front of a log line. -/
def timestamp : IO Text := do
  let now ← Std.Time.PlainTime.now
  return "[" ++ padded 2 now.hour.val.toNat ++ ":" ++ padded 2 now.minute.val.toNat ++ ":"
    ++ padded 2 now.second.val.toNat ++ "." ++ padded 3 (now.nanosecond.val.toNat / 1000000) ++ "] "

/-- Append to the debug log. A log that cannot be opened is left alone, but the directory it is kept
in has to be one. -/
def appendLog (environment : Environment) (lines : List Text) : IO Unit := do
  if lines = [] then return
  unless ← ((← IO.currentDir) / string environment.temporary).isDir do
    throw (IO.userError ("Not a directory: " ++ string environment.temporary))
  let path := (← IO.currentDir) / string (environment.temporary.append "slotctl_debug.log")
  try
    let log ← IO.FS.Handle.mk path .append
    for line in lines do
      log.write (bytes ((← timestamp) ++ line ++ "\n"))
  catch _ => pure ()

/-- The first variable of those that name the temporary directory. -/
def temporaryDirectory : IO Path := do
  for name in ["TMPDIR", "TMP", "TEMP", "TEMPDIR"] do
    if let some path ← IO.getEnv name then return Text.ofString path
  return "/tmp"

def program (arguments : List String) : IO UInt32 := do
  let environment : Environment :=
    ⟨(← IO.getEnv "HOME").map Text.ofString, ← temporaryDirectory, Block.format "no block notation"⟩
  let files ← survey environment
  let outcome := CommandLine.run environment (arguments.map Text.ofString) ⟨files, []⟩
  for change in files.changes outcome.world.files do
    carryOut change
  appendLog environment outcome.world.log
  (← IO.getStdout).write (bytes outcome.output)
  return outcome.exit

end StableOrdinals.Main

def main (arguments : List String) : IO UInt32 := do
  try StableOrdinals.Main.program arguments
  catch failure =>
    let message := StableOrdinals.Text.ofString failure.toString
    (← IO.getStdout).write
      (StableOrdinals.Main.bytes (StableOrdinals.CommandLine.Style.failure message))
    return 1
