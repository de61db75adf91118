import StableOrdinals.Files

/-!
# Changes between trees

`Files.changes` lists what leads from one tree to another: first what goes, the deepest entries
before the directories that hold them, then the directories that come, the outermost first, and
last the files that come or have other content.
-/

namespace StableOrdinals

namespace Location

def path (place : Location) : Path := "/" ++ Text.join "/" place.reverse

def isDeeper (a b : Location) : Bool := b.length ≤ a.length

end Location

namespace Files

inductive Change
  | delete (place : Location)
  | makeDirectory (place : Location)
  | write (place : Location) (content : Text)
  deriving DecidableEq, Repr

/-- An entry that is gone, or that gives way to one of another kind. -/
def isDeleted (before after : Files) (place : Location) : Bool :=
  match before.at? place, after.at? place with
  | some .directory, some .directory => false
  | some (.file _), some (.file _) => false
  | some .special, some .special => false
  | some .loop, some .loop => false
  | _, _ => true

def deletions (before after : Files) : List Change :=
  ((before.places.filter (isDeleted before after)).mergeSort Location.isDeeper).map .delete

def newDirectories (before after : Files) : List Change :=
  ((after.places.filter fun place =>
    after.at? place = some .directory ∧ before.at? place ≠ some .directory).mergeSort
      fun a b => Location.isDeeper b a).map .makeDirectory

def newContents (before after : Files) : List Change :=
  after.places.filterMap fun place =>
    (after.fileAt? place).bind fun content =>
      if before.fileAt? place = some content then none else some (.write place content)

def changes (before after : Files) : List Change :=
  deletions before after ++ newDirectories before after ++ newContents before after

end Files

end StableOrdinals
