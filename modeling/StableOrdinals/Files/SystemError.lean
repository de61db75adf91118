import StableOrdinals.Files.Path

/-!
# System errors

Why the operating system refuses to do something at a path, with its wording. `isAbsence` tells the
causes that only mean that nothing stands there.
-/

namespace StableOrdinals

inductive SystemError
  | missing
  | notDirectory
  | alreadyThere
  | nameTooLong
  | tooManyLinks
  | notEmpty
  | invalid
  | busy
  deriving DecidableEq, Repr

namespace SystemError

def message : SystemError → Text
  | missing => "No such file or directory"
  | notDirectory => "Not a directory"
  | alreadyThere => "File exists"
  | nameTooLong => "File name too long"
  | tooManyLinks => "Too many levels of symbolic links"
  | notEmpty => "Directory not empty"
  | invalid => "Invalid argument"
  | busy => "Device or resource busy"

/-- The full text, which says what was tried and where. -/
def report (cause : SystemError) (task : Text) (path : Path) : Text :=
  "filesystem error: " ++ task ++ ": " ++ cause.message ++ " [" ++ path ++ "]"

/-- A path on which an entry is missing, or on which a file stands in place of a directory, leads to
nothing. -/
def isAbsence : SystemError → Bool
  | missing => true
  | notDirectory => true
  | _ => false

end SystemError

end StableOrdinals
