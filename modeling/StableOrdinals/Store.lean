import StableOrdinals.Files.Directories
import StableOrdinals.Workload
import StableOrdinals.World

/-!
# The object store

A store keeps one file per workload in its directory. A workload is first written to a draft and
the draft is then renamed, so that a reader never meets half a file.

`create` stores a new object at version 1. `update` replaces an object only if its caller holds the
version that is stored, and raises the version by one, so that two writers cannot overwrite each
other unnoticed. `modify` loads an object, changes and updates it, and starts over when another
writer came in between.

Each operation that changes the store takes a `World` and returns its answer with the world after
it, the answer being a cause of failure or the object as stored.
-/

namespace StableOrdinals

structure Store where
  directory : Path
  /-- How objects are read and written. -/
  format : Document.Format

inductive StoreError
  | invalidName (name : Text)
  | negativeReplicas (given : Int32)
  | alreadyExists (name : Text)
  | notFound (name : Text)
  /-- The cause is given in the words of the format. -/
  | unreadable (path : Path) (cause : Text)
  | misnamed (path : Path) (found expected : Text)
  | conflict (name : Text) (held stored : UInt64)
  | gaveUp (name : Text) (attempts : Int)
  | noDirectory (path : Path) (cause : SystemError)
  /-- The cause is given in the words of the format. -/
  | notEncoded (name cause : Text)
  | unwritable (path : Path)
  | notStored (name : Text)
  | notDeleted (name : Text) (cause : SystemError)
  /-- It cannot be told what stands there. -/
  | unreachable (path : Path) (cause : SystemError)
  deriving DecidableEq, Repr

namespace StoreError

def message : StoreError → Text
  | invalidName name => "Invalid object name: '" ++ name ++ "'"
  | negativeReplicas given => "replicas must be non-negative, got " ++ Text.ofInt given.toInt
  | alreadyExists name => "Object already exists: " ++ name
  | notFound name => "Object not found: " ++ name
  | unreadable path cause => "Failed to parse object " ++ path ++ ": " ++ cause
  | misnamed path found expected =>
    "Object file " ++ path ++ " holds '" ++ found ++ "', expected '" ++ expected ++ "'"
  | conflict name held stored =>
    "Conflict updating " ++ name ++ ": object was modified (version " ++ Text.ofNat held.toNat
      ++ " != " ++ Text.ofNat stored.toNat ++ "), reload and retry"
  | gaveUp name attempts =>
    "Gave up updating " ++ name ++ " after " ++ Text.ofInt attempts ++ " conflicting writes"
  | noDirectory path cause => "Failed to create " ++ path ++ ": " ++ cause.message
  | notEncoded name cause => "Failed to encode object " ++ name ++ ": " ++ cause
  | unwritable path => "Failed to write " ++ path
  | notStored name => "Failed to store " ++ name
  | notDeleted name cause => "Failed to delete " ++ name ++ ": " ++ cause.message
  | unreachable path cause => cause.report "status" path

/-- Whether the trouble lies with the system and not with the objects. -/
def isUnreachable : StoreError → Bool
  | unreachable .. => true
  | _ => false

end StoreError

namespace Store

variable (store : Store)

def file (name : Text) : Path := store.directory.append (name ++ ".yaml")

def draft (name : Text) : Path := store.directory.append ("." ++ name ++ ".yaml.tmp")

/-- Whatever bears the name of an object's file counts, a directory too. -/
def hasFile (files : Files) (name : Text) : Except StoreError Bool :=
  (files.existsAt (store.file name)).mapError (.unreachable (store.file name))

def contains (files : Files) (name : Text) : Except StoreError Bool :=
  if Workload.isValidName name then store.hasFile files name else .ok false

/-- The name of the object whose file has a given name. -/
def objectName? (fileName : Text) : Option Text :=
  let (stem, extension) := Path.splitExtension fileName
  if extension = ".yaml" ∧ Workload.isValidName stem then some stem else none

/-- One more file of the directory at `holder` behind those whose objects have been found. -/
def gather (files : Files) (holder : Location) (found : List Text) (fileName : Text) :
    Except StoreError (List Text) :=
  match ((files.at? (fileName :: holder)).map Entry.isFile).getD (.ok false) with
  | .error cause => .error (.unreachable (store.directory.append fileName) cause)
  | .ok false => .ok found
  | .ok true => .ok (found ++ (objectName? fileName).toList)

/-- The names of the objects in the directory at `holder` that come of its file names in some order.
-/
def gathered (files : Files) (holder : Location) (fileNames : List Text) :
    Except StoreError (List Text) :=
  (fileNames.foldlM (store.gather files holder) []).map
    fun found => found.mergeSort fun a b => (compare a b).isLE

def list (files : Files) : Except StoreError (List Text) :=
  match files.locate store.directory with
  | .error _ => .ok []
  | .ok holder => store.gathered files holder (files.names holder)

/-- The object in a file that is there. -/
def loadFile (files : Files) (name : Text) : Except StoreError Workload :=
  let path := store.file name
  match files.read? path with
  | none => .error (.unreadable path (store.format.unopened path))
  | some content =>
    match (store.format.read content).bind (Workload.ofDocument name) with
    | .error cause => .error (.unreadable path cause)
    | .ok w => if w.name = name then .ok w else .error (.misnamed path w.name name)

def load (files : Files) (name : Text) : Except StoreError Workload :=
  if Workload.isValidName name = false then .error (.invalidName name)
  else
    match store.hasFile files name with
    | .error e => .error e
    | .ok false => .error (.notFound name)
    | .ok true => store.loadFile files name

/-- Write the file of an object by way of its draft. -/
def save (files : Files) (w : Workload) : Except StoreError Unit × Files :=
  match files.makeDirectories store.directory with
  | (.error cause, files) => (.error (.noDirectory store.directory cause), files)
  | (.ok (), files) =>
    match w.render store.format with
    | .error cause => (.error (.notEncoded w.name cause), files)
    | .ok content =>
      match files.write? (store.draft w.name) content with
      | none => (.error (.unwritable (store.draft w.name)), files)
      | some files =>
        match files.rename? (store.draft w.name) (store.file w.name) with
        | some files => (.ok (), files)
        | none =>
          (.error (.notStored w.name), (files.remove (store.draft w.name)).toOption.getD files)

def put (world : World) (stored : Workload) (line : Text) : Except StoreError Workload × World :=
  match store.save world.files stored with
  | (.ok (), files) => (.ok stored, { world with files }.note [line])
  | (.error e, files) => (.error e, { world with files })

def create (world : World) (w : Workload) : Except StoreError Workload × World :=
  if Workload.isValidName w.name = false then (.error (.invalidName w.name), world)
  else if w.replicas.toInt < 0 then (.error (.negativeReplicas w.replicas), world)
  else
    match store.contains world.files w.name with
    | .error e => (.error e, world)
    | .ok true => (.error (.alreadyExists w.name), world)
    | .ok false =>
      store.put world { w with version := 1 }
        ("[store] created " ++ w.name ++ " (replicas=" ++ Text.ofInt w.replicas.toInt ++ ")")

def update (world : World) (w : Workload) : Except StoreError Workload × World :=
  if w.replicas.toInt < 0 then (.error (.negativeReplicas w.replicas), world)
  else
    match store.load world.files w.name with
    | .error e => (.error e, world)
    | .ok current =>
      if current.version ≠ w.version then
        (.error (.conflict w.name w.version current.version),
          world.note ["[store] conflict on " ++ w.name ++ ": have version "
            ++ Text.ofNat w.version.toNat ++ ", stored " ++ Text.ofNat current.version.toNat])
      else
        store.put world { w with version := w.version + 1 }
          ("[store] updated " ++ w.name ++ " to version " ++ Text.ofNat (w.version + 1).toNat)

def remove (world : World) (name : Text) : Except StoreError Unit × World :=
  match store.contains world.files name with
  | .error e => (.error e, world)
  | .ok false => (.error (.notFound name), world)
  | .ok true =>
    match world.files.remove (store.file name) with
    | .error cause => (.error (.notDeleted name cause), world)
    | .ok files => (.ok (), { world with files }.note ["[store] deleted " ++ name])

/-- How often `modify` starts over unless told otherwise. -/
def defaultRetries : Int := 3

inductive ModifyError (ε : Type)
  | store (cause : StoreError)
  /-- The change itself was refused. -/
  | refused (cause : ε)
  deriving DecidableEq, Repr

/-- A change of an object. It may fail, keep a state `σ` from one attempt to the next and touch the
world, the store included. -/
abbrev Change (ε σ : Type) := Workload → World × σ → Except ε Workload × (World × σ)

variable {ε σ : Type}

/-- Whether an update may have failed because another writer stored the object under another
version than the one that was seen. -/
def isOvertaken (files : Files) (name : Text) (seen : UInt64) (failure : StoreError) : Bool :=
  if failure.isUnreachable then false
  else
    match store.load files name with
    | .error _ => false
    | .ok latest => latest.version ≠ seen

/-- Load, change and update once. Besides the answer, says whether another writer came in between,
in which case another attempt is worth making. -/
def attempt (name : Text) (change : Change ε σ) (state : World × σ) :
    Except (ModifyError ε) Workload × Bool × (World × σ) :=
  match store.load state.1.files name with
  | .error e => (.error (.store e), false, state)
  | .ok seen =>
    match change seen state with
    | (.error e, state) => (.error (.refused e), false, state)
    | (.ok w, (world, kept)) =>
      match store.update world w with
      | (.ok stored, world) => (.ok stored, false, (world, kept))
      | (.error e, world) =>
        (.error (.store e), store.isOvertaken world.files name seen.version e, (world, kept))

/-- At most `left` attempts, of which the first bears the number `number`. -/
def attempts (name : Text) (change : Change ε σ) (retries : Int) :
    (left number : Nat) → World × σ → Except (ModifyError ε) Workload × (World × σ)
  | 0, _, state => (.error (.store (.gaveUp name (retries + 1))), state)
  | left + 1, number, state =>
    match store.attempt name change state with
    | (answer, false, state) => (answer, state)
    | (_, true, (world, kept)) =>
      attempts name change retries left (number + 1)
        (world.note ["[store] retrying update of " ++ name ++ " (attempt " ++ Text.ofNat number
          ++ ")"], kept)

def modify (name : Text) (change : Change ε σ) (retries : Int) (state : World × σ) :
    Except (ModifyError ε) Workload × (World × σ) :=
  store.attempts name change retries (retries + 1).toNat 1 state

end Store

end StableOrdinals
