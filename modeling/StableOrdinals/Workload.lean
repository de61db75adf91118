import StableOrdinals.Document
import StableOrdinals.Reservations

/-!
# Workloads

A workload is an object of the store. Its name becomes a file name, so that letters, digits, dots,
dashes and underscores are all that it may hold, and it does not start with a dot. Versions count
the updates of an object; they wrap around, and version 0 belongs to no stored object.

`render` writes a workload in a format and `ofDocument` takes one from a document, with a default
for each entry that is missing or of another kind. Whether a workload is read back as it was written
is up to the format (`ReadsBack`), as is whether it can be written at all (`Keeps`).
-/

namespace StableOrdinals

structure Workload where
  name : Text
  replicas : Int32
  version : UInt64
  annotations : Bag

namespace Workload

def isNameByte (c : Byte) : Bool :=
  Text.isLetter c || Text.isDigit c || c = '-' || c = '_' || c = '.'

def isValidName (name : Text) : Bool :=
  name ≠ [] && name.head? ≠ some ('.' : Byte) && name.all isNameByte

def fields (w : Workload) : List (Text × Document.Item) :=
  ("name", .text w.name) :: ("replicas", .number w.replicas.toInt)
    :: ("resource_version", .number w.version.toNat)
    :: w.annotations.elim [] fun annotations => [("annotations", .texts annotations.toList)]

/-- The content of an object's file. -/
def render (format : Document.Format) (w : Workload) : Except Text Text :=
  (format.write w.fields).map fun s => Text.beforeNul s ++ "\n"

/-- A value that is no text counts as the empty text. -/
def annotationOf (entry : Except Text Text × Option Text) : Except Text (Text × Text) :=
  entry.1.map fun key => (key, entry.2.getD [])

def annotationsOf (entries : List (Except Text Text × Option Text)) : Except Text Annotations :=
  (entries.mapM annotationOf).map fun pairs => Std.ExtTreeMap.ofList pairs

/-- Only a mapping makes a bag. -/
def bagOf (node : Option Document.Node) : Except Text Bag :=
  match node.bind (·.entries?) with
  | none => .ok none
  | some entries => (annotationsOf entries).map some

/-- The workload that a document holds, where `name` is the name in case it gives none. -/
def ofDocument (name : Text) (document : Document) : Except Text Workload := do
  let ownName ← document.find? "name"
  let replicas ← document.find? "replicas"
  let version ← document.find? "resource_version"
  let annotations ← bagOf (← document.find? "annotations")
  .ok
    { name := (ownName.bind (·.text?)).getD name
      replicas := (replicas.bind (·.int32?)).getD 0
      version := (version.bind (·.uint64?)).getD 0
      annotations }

end Workload

namespace Document.Format

variable (format : Format) (w : Workload)

/-- If the workload can be written, then it is read back as it is, whatever name is expected. -/
def ReadsBack : Prop :=
  ∀ content, w.render format = .ok content →
    ∃ document, format.read content = .ok document ∧
      ∀ name, Workload.ofDocument name document = .ok w

/-- The workload can be written and is read back. -/
def Keeps : Prop := (∃ content, w.render format = .ok content) ∧ format.ReadsBack w

end Document.Format

end StableOrdinals
