import StableOrdinals.Files

/-!
# Directories that lead to a path

`makeDirectories` makes a directory and those on the way to it, as far as they are missing. `follow`
finds how far the path leads already, and `make` makes the rest one inside the other. A directory
that cannot be made ends this, and those made before it stay.
-/

namespace StableOrdinals.Files

/-- Follow components as long as something stands there. Returns the place that is reached and the
components that are left. -/
def follow (files : Files) : Location → List Text → Location × List Text
  | place, [] => (place, [])
  | place, component :: rest =>
    match files.step place component with
    | .error _ => (place, component :: rest)
    | .ok next =>
      if files.at? next = none then (place, component :: rest) else follow files next rest

/-- Make directories, each in the one before it. One that is there already is entered. -/
def make : Files → Location → List Text → Except SystemError Unit × Files
  | files, _, [] => (.ok (), files)
  | files, place, component :: rest =>
    if component = [] ∨ component = "." then make files place rest
    else if component = ".." then make files place.tail rest
    else if longestName < component.length then (.error .nameTooLong, files)
    else if files.at? (component :: place) = some .directory then
      make files (component :: place) rest
    else if files.at? (component :: place) ≠ none then (.error .alreadyThere, files)
    else
      match files.put? component place .directory with
      | none => (.error .notDirectory, files)
      | some files => make files (component :: place) rest

def mostDirectories : Nat := 1000

/-- Make a directory where nothing stands, and those that are missing on the way to it. -/
def makeMissing (files : Files) (path : Path) : Except SystemError Unit × Files :=
  let path := if path.fileName = [] then path.parent else path
  let (place, left) := files.follow (files.origin path) (Path.components path.parent)
  let missing := left ++ [path.fileName]
  if mostDirectories < (missing.filter Path.isName).length then (.error .nameTooLong, files)
  else if files.at? place = some .loop then (.error .tooManyLinks, files)
  else if files.at? place ≠ some .directory then (.error .notDirectory, files)
  else files.make place (Path.components (Text.beforeNul (Text.join "/" missing)))

/-- Make a directory and all that lead to it, as far as they are missing. -/
def makeDirectories (files : Files) (path : Path) : Except SystemError Unit × Files :=
  if path = [] then (.error .invalid, files)
  else if Text.beforeNul path = [] then (.error .missing, files)
  else
    match files.status path with
    | .error cause => (.error cause, files)
    | .ok none => files.makeMissing path
    | .ok (some entry) => (if entry = .directory then .ok () else .error .notDirectory, files)

end StableOrdinals.Files
